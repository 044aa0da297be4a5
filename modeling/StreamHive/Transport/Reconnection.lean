import StreamHive.Transport.PeerLifecycle
import StreamHive.Transport.PeerReconnector

/-!
# Which targets are dialed again

A target has at most one dial loop at a time.  After `Start` every target should have a
loop, a registered peer that was dialed to it, or a disconnect callback under way.  `Dial`
reports no error when the transport refuses the connection, because its key is taken or
the transport is full, and the loop then ends: the target is lost unless some other peer
of it is registered or on its way to a callback.

## Main results

* `Worker.next_does` — what one step does;
* `Kept.step` — the loops are the targets being dialed, in every run;
* `Held.step`, `Covered.step` — a target stays covered, unless a connection to it is
  refused while nothing else holds it;
* `targets_covered` — whole runs.
-/

namespace StreamHive.Transport

open Verified Threads

/-! ## What covers a target -/

/-- The peer was dialed to the target. -/
def TCPPeer.Dialed (tp : TCPPeer) (target : String) : Prop :=
  tp.outbound = true ∧ tp.dialTarget = target

/-- A peer that was dialed to the target is registered. -/
def TCPTransport.HasDialed (t : TCPTransport) (target : String) : Prop :=
  ∃ (key : String) (tp : TCPPeer), t.peers[key]? = some tp ∧ tp.Dialed target

def Loop.target : Loop → String
  | .starting target _ | .trying target _ | .dialing target _ _ | .sleeping target _
  | .exiting target | .retrying target => target

/-- The loop has not finished. -/
def Loop.running : Loop → Bool
  | .retrying _ => false
  | _ => true

/-- The peer whose disconnect callback has not noted the disconnect. -/
def Worker.owed? : Worker → Option TCPPeer
  | .transport (.serve (.unlisted tp)) | .transport (.serve (.notifying tp)) => some tp
  | _ => none

/-- The peer whose disconnect callback has not finished. -/
def Worker.callback? : Worker → Option TCPPeer
  | .scheduling tp => some tp
  | w => w.owed?

/-- A loop is running for the target, or about to be scheduled again; or a peer that was
dialed to it is registered; or the disconnect callback of such a peer has not finished. -/
def PeerReconnector.Covered (r : PeerReconnector) (workers : List Worker)
    (target : String) : Prop :=
  (∃ l, .loop l ∈ workers ∧ l.target = target) ∨ r.tr.HasDialed target ∨
    ∃ w ∈ workers, ∃ tp, w.callback? = some tp ∧ tp.Dialed target

/-- A peer that was dialed to the target is registered, or the disconnect callback of one
has not noted the disconnect, or a disconnect has been noted. -/
def PeerReconnector.Held (r : PeerReconnector) (workers : List Worker)
    (target : String) : Prop :=
  r.tr.HasDialed target ∨ (∃ w ∈ workers, ∃ tp, w.owed? = some tp ∧ tp.Dialed target) ∨
    target ∈ r.pending

/-- The transport is open, but has no place for the peer. -/
def TCPTransport.Refuses (t : TCPTransport) (tp : TCPPeer) : Prop :=
  t.state = .open_ ∧
    (tp.remoteAddr ∈ t.peers ∨ (t.maxPeers > 0 ∧ t.peers.size ≥ t.maxPeers))

instance (t : TCPTransport) (tp : TCPPeer) : Decidable (t.Refuses tp) :=
  inferInstanceAs (Decidable (_ ∧ _))

/-! ## What one step does -/

section Does

open PeerReconnector

/-- What one step of a goroutine does. -/
inductive Does (r : PeerReconnector) : Worker → PeerReconnector → List Worker → Prop
  | transport {choice th t ts} (hcall : th.disconnecting? = none)
      (hnext : Thread.next choice r.tr th = some (t, ts)) :
      Does r (.transport th) { r with tr := t } (ts.map .transport)
  | dials {choice target delay h t h' serves}
      (hnext : Handler.next choice r.tr h = some (t, h', serves)) :
      Does r (.loop (.dialing target delay h)) { r with tr := t }
        (.loop (.dialing target delay h') :: serves.map fun s => .transport (.serve s))
  | ignores {tp} (hnot : r.cancelled = true ∨ tp.outbound = false ∨
        tp.disconnectTarget ∉ r.target) :
      Does r (.transport (.serve (.notifying tp))) (r.callbackReturns tp)
        [.transport (.serve (.notified tp))]
  | pends {tp} (hdialing : tp.disconnectTarget ∈ r.dialing) :
      Does r (.transport (.serve (.notifying tp)))
        ({ r with pending := insert tp.disconnectTarget r.pending }.callbackReturns tp)
        [.transport (.serve (.notified tp))]
  | hands {tp} (htarget : tp.disconnectTarget ∈ r.target)
      (hdialing : tp.disconnectTarget ∉ r.dialing) :
      Does r (.transport (.serve (.notifying tp))) r [.scheduling tp]
  | late (tp : TCPPeer) {r₁ loops}
      (hschedule : r.schedule tp.disconnectTarget r.min = (r₁, loops)) :
      Does r (.scheduling tp) (r₁.callbackReturns tp)
        (.transport (.serve (.notified tp)) :: loops.map .loop)
  | again (target : String) {r₁ loops} (hschedule : r.schedule target r.min = (r₁, loops)) :
      Does r (.loop (.retrying target)) r₁ (loops.map .loop)
  | starts (target : String) (left : List String) {r₁ loops}
      (hschedule : r.schedule target 0 = (r₁, loops)) :
      Does r (.starter (target :: left)) r₁ (.starter left :: loops.map .loop)
  | started : Does r (.starter []) { r with started := true } []
  | begins (target : String) (delay : Int64) :
      Does r (.loop (.trying target delay)) r
        [.loop (.dialing target delay (.beginning target))]
  | waits {l l'} (hl : l.running = true) (htarget : l'.target = l.target)
      (hdial : ∀ target delay h, l ≠ .dialing target delay h)
      (hl' : ∃ target delay, l' = .trying target delay) : Does r (.loop l) r [.loop l']
  | stops {l} (hl : l.running = true) (hdial : ∀ target delay h, l ≠ .dialing target delay h)
      (hcancelled : r.cancelled = true) : Does r (.loop l) r [.loop (.exiting l.target)]
  | succeeds (target : String) (delay : Int64) :
      Does r (.loop (.dialing target delay (.returned none))) r [.loop (.exiting target)]
  | fails (target : String) (delay : Int64) (error : DialError) :
      Does r (.loop (.dialing target delay (.returned (some error)))) r
        [.loop (.sleeping target delay)]
  | exits (target : String) {loops}
      (hloops : loops = [] ∨ loops = [.retrying target])
      (hretry : r.cancelled = false → target ∈ r.pending → loops = [.retrying target]) :
      Does r (.loop (.exiting target))
        { r with dialing := r.dialing.erase target, pending := r.pending.erase target }
        (loops.map .loop)

variable {choice : Choice} {r r' : PeerReconnector}

theorem PeerReconnector.sleepContext_false (h : r.sleepContext choice = some false) :
    r.cancelled = true := by
  unfold sleepContext at h
  split at h
  · cases h
  · split at h
    · assumption
    · cases h
  · cases h

theorem Loop.next_does {l : Loop} {loops : List Loop} {serves : List Serve}
    (hnext : l.next choice r = some (r', loops, serves)) :
    Does r (.loop l) r' (loops.map .loop ++ serves.map fun s => .transport (.serve s)) := by
  cases l with
  | starting target initialDelay =>
    simp only [Loop.next] at hnext
    split at hnext
    · split at hnext
      · cases hnext
        exact .waits rfl rfl nofun ⟨_, _, rfl⟩
      · next hsleep =>
        cases hnext
        exact .stops rfl nofun (sleepContext_false hsleep)
      · cases hnext
    · cases hnext
      exact .waits rfl rfl nofun ⟨_, _, rfl⟩
  | trying target delay =>
    simp only [Loop.next] at hnext
    split at hnext
    · cases hnext
      exact .stops rfl nofun ‹_›
    · cases hnext
      exact .begins target delay
  | dialing target delay h =>
    simp only [Loop.next] at hnext
    split at hnext
    · next hreturned =>
      cases hnext
      cases h <;> cases hreturned
      exact .succeeds target delay
    · next error hreturned =>
      cases hnext
      cases h <;> cases hreturned
      exact .fails target delay error
    · obtain ⟨⟨t, h', serves'⟩, hh, heq⟩ := Option.map_eq_some_iff.mp hnext
      cases heq
      exact .dials hh
  | sleeping target delay =>
    simp only [Loop.next] at hnext
    split at hnext
    · cases hnext
      exact .waits rfl rfl nofun ⟨_, _, rfl⟩
    · next hsleep =>
      cases hnext
      exact .stops rfl nofun (sleepContext_false hsleep)
    · cases hnext
  | exiting target =>
    cases hnext
    simp only [List.map_nil, List.append_nil]
    refine .exits target ?_ ?_
    · split
      · exact .inr rfl
      · exact .inl rfl
    · intro hlive hpending
      exact if_pos (by simp [hlive, hpending])
  | retrying target =>
    cases hnext
    simp only [List.map_nil, List.append_nil]
    exact .again target rfl

theorem PeerReconnector.onPeerDisconnected_does {tp : TCPPeer} {more : Bool}
    (h : r.onPeerDisconnected tp = (r', more)) :
    (more = true ∧ r' = r ∧ tp.disconnectTarget ∈ r.target ∧
      tp.disconnectTarget ∉ r.dialing) ∨
    (more = false ∧ r' = r ∧
      (r.cancelled = true ∨ tp.outbound = false ∨ tp.disconnectTarget ∉ r.target)) ∨
    (more = false ∧ r' = { r with pending := insert tp.disconnectTarget r.pending } ∧
      tp.disconnectTarget ∈ r.dialing) := by
  unfold onPeerDisconnected noteDisconnect at h
  split at h
  · cases h
    exact .inr (.inl ⟨rfl, rfl, .inr (.inl ‹_›)⟩)
  split at h
  · cases h
    exact .inr (.inl ⟨rfl, rfl, .inr (.inr ‹_›)⟩)
  next htarget =>
  split at h
  · cases h
    exact .inr (.inl ⟨rfl, rfl, .inl ‹_›⟩)
  split at h
  · cases h
    exact .inr (.inr ⟨rfl, rfl, ‹_›⟩)
  · cases h
    exact .inl ⟨rfl, rfl, not_not.mp htarget, ‹_›⟩

/-- What one step of a goroutine does. -/
theorem Worker.next_does {w : Worker} {ws : List Worker}
    (hnext : w.next choice r = some (r', ws)) : Does r w r' ws := by
  cases w with
  | transport th =>
    simp only [Worker.next] at hnext
    cases hcall : th.disconnecting? with
    | none =>
      rw [hcall] at hnext
      obtain ⟨⟨t, ts⟩, hth, heq⟩ := Option.map_eq_some_iff.mp hnext
      cases heq
      exact .transport hcall hth
    | some tp =>
      rw [hcall] at hnext
      obtain rfl : th = .serve (.notifying tp) := by
        cases th with
        | serve s => cases s <;> cases hcall; rfl
        | _ => cases hcall
      cases hnote : r.onPeerDisconnected tp with
      | mk r₁ more =>
      simp only [hnote] at hnext
      rcases onPeerDisconnected_does hnote with ⟨rfl, rfl, htarget, hdialing⟩ |
        ⟨rfl, rfl, hnot⟩ | ⟨rfl, rfl, hdialing⟩
      · cases hnext
        exact .hands htarget hdialing
      · cases hnext
        exact .ignores hnot
      · cases hnext
        exact .pends hdialing
  | scheduling tp =>
    cases hnext
    exact .late tp rfl
  | loop l =>
    obtain ⟨⟨r₁, loops, serves⟩, hl, heq⟩ := Option.map_eq_some_iff.mp hnext
    cases heq
    exact Loop.next_does hl
  | starter left =>
    cases left with
    | nil =>
      cases hnext
      exact .started
    | cons target left =>
      cases hnext
      exact .starts target left rfl

end Does

/-! ## The transport under the reconnector -/

/-- A registered peer stays registered until its serve loop is about to call back. -/
theorem Performs.peers_stay {t t' : TCPTransport} {th : Thread} {before after ts : List Thread}
    {key : String} {tp : TCPPeer} (haccounted : Accounted t (before ++ th :: after))
    (h : Performs t th t' ts) (hget : t.peers[key]? = some tp) :
    t'.peers[key]? = some tp ∨ .serve (.unlisted tp) ∈ ts := by
  rcases h.peers_cases with hsame | ⟨tp', hregisters⟩ | ⟨tp', rfl, rfl, rfl⟩
  · rw [hsame]
    exact .inl hget
  · obtain ⟨t₁, hstart, heq⟩ := hregisters.eq
    left
    rw [heq, hstart.eq]
    change (t.peers.insert tp'.remoteAddr tp')[key]? = some tp
    simp only [Std.ExtTreeMap.getElem?_insert, Std.LawfulEqCmp.compare_eq_iff_eq]
    rw [if_neg, hget]
    rintro rfl
    rw [Std.ExtTreeMap.getElem?_eq_none hregisters.absent] at hget
    cases hget
  · have hth : Thread.serve (.ended tp') ∈ before ++ .serve (.ended tp') :: after := by simp
    have hlisted := haccounted.listed_of_registered hth rfl
    unfold TCPTransport.unregister
    split
    · by_cases hkey : tp'.remoteAddr = key
      · rw [← hkey, hlisted] at hget
        cases hget
        exact .inr (by simp)
      · left
        change (t.peers.erase tp'.remoteAddr)[key]? = some tp
        simp only [Std.ExtTreeMap.getElem?_erase, Std.LawfulEqCmp.compare_eq_iff_eq]
        rw [if_neg hkey, hget]
    · exact .inl hget

/-- Every connection that was dialed has the target it was dialed to. -/
def TCPTransport.Outward (t : TCPTransport) : Prop :=
  ∀ tp ∈ t.opened, tp.outbound = true → tp.dialTarget ≠ ""

theorem Performs.outward {t t' : TCPTransport} {th : Thread} {ts : List Thread}
    (h : Performs t th t' ts) (hold : t.Outward) : t'.Outward := by
  unfold TCPTransport.Outward
  rcases h.opened_cases with hsame | ⟨tp', hnew, hdialed⟩
  · rw [hsame]
    exact hold
  · rw [hnew]
    intro tp htp
    rcases List.mem_append.mp htp with htp | htp
    · exact hold tp htp
    · rw [List.mem_singleton.mp htp]
      exact hdialed

/-- The call of `Dial` is one to the target. -/
def Handler.Dials (target : String) : Handler → Prop
  | .beginning addr | .dialing addr => addr = target
  | .finishing _ | .returned _ => True
  | .opened tp | .untracked tp | .handshaking tp | .failed tp | .registering tp
  | .refused tp | .late tp | .announcing tp | .starting tp | .leaving tp _ =>
    tp.Dialed target

/-- The call of `Dial` will report no error. -/
def Handler.settled : Handler → Bool
  | .refused _ | .announcing _ | .starting _ | .leaving _ none | .finishing none
  | .returned none => true
  | _ => false

theorem TCPTransport.register_refuses {t t' : TCPTransport} {tp : TCPPeer}
    {result : Registration} (h : t.register tp = (result, t'))
    (hresult : result = .duplicate ∨ result = .full) : t.Refuses tp := by
  unfold register at h
  split at h
  · rcases hresult with rfl | rfl <;> cases h
  next hopen =>
  have hstate : t.state = .open_ := not_not.mp hopen
  split at h
  · exact ⟨hstate, .inl ‹_›⟩
  split at h
  · exact ⟨hstate, .inr ‹_›⟩
  split at h <;> rcases hresult with rfl | rfl <;> cases h

/-- A call of `Dial` keeps to its target, and it will report no error once it has
registered its connection or found no place for it. -/
theorem Handler.next_dials {choice : Choice} {t t' : TCPTransport} {h h' : Handler}
    {serves : List Serve} {target : String}
    (hnext : h.next choice t = some (t', h', serves)) (hdials : h.Dials target) :
    h'.Dials target ∧ (h'.settled = true → h.settled = true ∨
      ∃ tp, h = .registering tp ∧ (Registers t tp t' ∨ t.Refuses tp)) := by
  have hno {P : Prop} (h : false = true) : P := absurd h Bool.false_ne_true
  cases h with
  | beginning addr =>
    simp only [Handler.next] at hnext
    split at hnext
    · cases hnext
      exact ⟨hdials, hno⟩
    · cases hnext
      exact ⟨trivial, hno⟩
  | dialing addr =>
    simp only [Handler.next] at hnext
    split at hnext
    · split at hnext
      · cases hnext
      · cases hnext
        exact ⟨⟨rfl, hdials⟩, hno⟩
    · cases hnext
      exact ⟨trivial, hno⟩
    · cases hnext
  | opened tp | handshaking tp =>
    simp only [Handler.next] at hnext
    split at hnext
    all_goals cases hnext
    all_goals exact ⟨hdials, hno⟩
  | untracked tp =>
    cases hnext
    exact ⟨trivial, hno⟩
  | failed tp | late tp =>
    cases hnext
    exact ⟨hdials, hno⟩
  | registering tp =>
    simp only [Handler.next] at hnext
    split at hnext
    · next hregister =>
      cases hnext
      exact ⟨hdials, fun _ => .inr ⟨tp, rfl, .inl (TCPTransport.register_registered hregister)⟩⟩
    · cases hnext
      exact ⟨hdials, hno⟩
    · next hregister =>
      cases hnext
      exact ⟨hdials, fun _ =>
        .inr ⟨tp, rfl, .inr (TCPTransport.register_refuses hregister (.inl rfl))⟩⟩
    · next hregister =>
      cases hnext
      exact ⟨hdials, fun _ =>
        .inr ⟨tp, rfl, .inr (TCPTransport.register_refuses hregister (.inr rfl))⟩⟩
  | refused tp | announcing tp =>
    cases hnext
    exact ⟨hdials, fun _ => .inl rfl⟩
  | starting tp =>
    cases hnext
    exact ⟨trivial, fun _ => .inl rfl⟩
  | leaving tp result | finishing result =>
    cases hnext
    cases result with
    | none => exact ⟨trivial, fun _ => .inl rfl⟩
    | some error => exact ⟨trivial, hno⟩
  | returned result => cases hnext

/-- The goroutines of the transport. -/
def Worker.threads : Worker → List Thread
  | .transport th => [th]
  | .scheduling tp => [.serve (.notifying tp)]
  | .loop (.dialing _ _ h) => [.handler h]
  | _ => []

theorem threads_transport (ts : List Thread) :
    (ts.map Worker.transport).flatMap Worker.threads = ts := by
  induction ts with
  | nil => rfl
  | cons th ts ih => simp [Worker.threads, ih]

theorem threads_serve (serves : List Serve) :
    (serves.map fun s => Worker.transport (.serve s)).flatMap Worker.threads =
      serves.map .serve := by
  induction serves with
  | nil => rfl
  | cons s serves ih => simp [Worker.threads, ih]

namespace PeerReconnector

variable {r r₁ : PeerReconnector} {target : String} {delay : Int64} {loops : List Loop}

/-- What `schedule` does. -/
theorem schedule_cases (h : r.schedule target delay = (r₁, loops)) :
    (r₁ = r ∧ loops = [] ∧ (r.cancelled = true ∨ target ∈ r.dialing)) ∨
      (r₁ = { r with dialing := insert target r.dialing } ∧
        loops = [.starting target delay] ∧ target ∉ r.dialing) := by
  unfold schedule at h
  split at h
  · cases h
    exact .inl ⟨rfl, rfl, .inl ‹_›⟩
  split at h
  · cases h
    exact .inl ⟨rfl, rfl, .inr ‹_›⟩
  · cases h
    exact .inr ⟨rfl, rfl, ‹_›⟩

/-- Only what is being dialed may differ. -/
structure OnlyDialing (r r₁ : PeerReconnector) : Prop where
  tr : r₁.tr = r.tr
  target : r₁.target = r.target
  pending : r₁.pending = r.pending
  cancelled : r₁.cancelled = r.cancelled
  started : r₁.started = r.started

theorem schedule_onlyDialing (h : r.schedule target delay = (r₁, loops)) :
    OnlyDialing r r₁ := by
  rcases schedule_cases h with ⟨rfl, rfl, _⟩ | ⟨rfl, rfl, _⟩
  · exact ⟨rfl, rfl, rfl, rfl, rfl⟩
  · exact ⟨rfl, rfl, rfl, rfl, rfl⟩

theorem schedule_threads (h : r.schedule target delay = (r₁, loops)) :
    (loops.map Worker.loop).flatMap Worker.threads = [] := by
  rcases schedule_cases h with ⟨rfl, rfl, _⟩ | ⟨rfl, rfl, _⟩
  · rfl
  · rfl

end PeerReconnector

section Transport

variable {r r' : PeerReconnector} {w : Worker} {ws : List Worker} {before after : List Thread}

/-- What a step does to the transport: one step of one of its goroutines, or none, when
at most a call of `Dial` begins or returns. -/
theorem Does.threads (h : Does r w r' ws) :
    (∃ th, w.threads = [th] ∧ Performs r.tr th r'.tr (ws.flatMap Worker.threads)) ∨
      r'.tr = r.tr ∧ (ws.flatMap Worker.threads = w.threads ∨
        (w.threads = [] ∧
          ∃ target, ws.flatMap Worker.threads = [.handler (.beginning target)]) ∨
        ∃ result, w.threads = [.handler (.returned result)] ∧
          ws.flatMap Worker.threads = []) := by
  have hcallback : ∀ tp, Performs r.tr (.serve (.notifying tp))
      (r.tr.note tp .onPeerDisconnected) [.serve (.notified tp)] :=
    fun _ => Serve.next_performs rfl
  cases h with
  | transport hcall hnext =>
    rw [threads_transport]
    exact .inl ⟨_, rfl, Thread.next_performs hnext⟩
  | dials hnext =>
    rw [List.flatMap_cons, threads_serve]
    exact .inl ⟨_, rfl, Handler.next_performs hnext⟩
  | ignores _ | pends _ => exact .inl ⟨_, rfl, hcallback _⟩
  | hands _ _ | started => exact .inr ⟨rfl, .inl rfl⟩
  | late tp hschedule =>
    left
    rw [List.flatMap_cons, PeerReconnector.schedule_threads hschedule]
    unfold PeerReconnector.callbackReturns
    rw [(PeerReconnector.schedule_onlyDialing hschedule).tr]
    exact ⟨_, rfl, hcallback tp⟩
  | again target hschedule | starts target left hschedule =>
    exact .inr ⟨(PeerReconnector.schedule_onlyDialing hschedule).tr,
      .inl (PeerReconnector.schedule_threads hschedule)⟩
  | begins target delay => exact .inr ⟨rfl, .inr (.inl ⟨rfl, target, rfl⟩)⟩
  | @waits l l' _ _ hdial hl' =>
    obtain ⟨target, delay, rfl⟩ := hl'
    cases l with
    | dialing target delay h => exact absurd rfl (hdial target delay h)
    | _ => exact .inr ⟨rfl, .inl rfl⟩
  | @stops l _ hdial _ =>
    cases l with
    | dialing target delay h => exact absurd rfl (hdial target delay h)
    | _ => exact .inr ⟨rfl, .inl rfl⟩
  | succeeds target delay => exact .inr ⟨rfl, .inr (.inr ⟨none, rfl, rfl⟩)⟩
  | fails target delay error => exact .inr ⟨rfl, .inr (.inr ⟨some error, rfl, rfl⟩)⟩
  | exits target hloops _ =>
    rcases hloops with rfl | rfl
    · exact .inr ⟨rfl, .inl rfl⟩
    · exact .inr ⟨rfl, .inl rfl⟩

/-- The accounts of the transport stay right under the reconnector. -/
theorem Does.accounted (h : Does r w r' ws)
    (haccounted : Accounted r.tr (before ++ w.threads ++ after)) :
    Accounted r'.tr (before ++ ws.flatMap Worker.threads ++ after) := by
  rcases h.threads with ⟨th, hth, hperforms⟩ | ⟨htr, hsame | ⟨hnone, target, hnew⟩ |
    ⟨result, hold, hnone⟩⟩
  · rw [hth, List.append_assoc] at haccounted
    exact haccounted.step hperforms
  · rw [htr, hsame]
    exact haccounted
  · rw [hnone, List.append_nil] at haccounted
    rw [htr, hnew, List.append_assoc]
    exact haccounted.insert rfl rfl
  · rw [hold, List.append_assoc] at haccounted
    rw [htr, hnone]
    exact haccounted.quiet ⟨⟨by simp, by simp [mark], by simp [mark]⟩, rfl⟩ rfl rfl rfl rfl

theorem Does.outward (h : Does r w r' ws) (hold : r.tr.Outward) : r'.tr.Outward := by
  rcases h.threads with ⟨th, _, hperforms⟩ | ⟨htr, _⟩
  · exact hperforms.outward hold
  · rw [htr]
    exact hold

/-- A registered peer stays registered until its disconnect callback is owed. -/
theorem Does.hasDialed {target : String} (h : Does r w r' ws)
    (haccounted : Accounted r.tr (before ++ w.threads ++ after))
    (hdialed : r.tr.HasDialed target) :
    r'.tr.HasDialed target ∨ ∃ u ∈ ws, ∃ tp, u.owed? = some tp ∧ tp.Dialed target := by
  obtain ⟨key, tp, hget, htp⟩ := hdialed
  rcases h.threads with ⟨th, hth, hperforms⟩ | ⟨htr, _⟩
  · rw [hth, List.append_assoc] at haccounted
    rcases hperforms.peers_stay haccounted hget with hstays | hends
    · exact .inl ⟨key, tp, hstays, htp⟩
    · obtain ⟨u, hu, hmem⟩ := List.mem_flatMap.mp hends
      refine .inr ⟨u, hu, tp, ?_, htp⟩
      cases u with
      | transport th =>
        rw [← List.mem_singleton.mp hmem]
        rfl
      | scheduling tp' => cases List.mem_singleton.mp hmem
      | starter left => cases hmem
      | loop l =>
        cases l with
        | dialing target delay h => cases List.mem_singleton.mp hmem
        | _ => cases hmem
  · rw [htr]
    exact .inl ⟨key, tp, hget, htp⟩

end Transport

/-! ## One loop for each target that is being dialed -/

/-- One when the worker is a running loop for the target. -/
def Worker.loops (target : String) : Worker → Nat
  | .loop l => if l.running = true ∧ l.target = target then 1 else 0
  | _ => 0

/-- The targets that the worker may schedule. -/
def Worker.aims : Worker → List String
  | .transport _ => []
  | .scheduling tp => [tp.disconnectTarget]
  | .loop l => [l.target]
  | .starter left => left

/-- A loop that is in `Dial` dials its target. -/
def Worker.Dials : Worker → Prop
  | .loop (.dialing target _ h) => h.Dials target
  | _ => True

theorem Worker.loops_running {l : Loop} {target : String} (hl : l.running = true) :
    Worker.loops target (.loop l) = if l.target = target then 1 else 0 := by
  simp only [Worker.loops, hl, true_and]

theorem total_loops_transport (target : String) (ts : List Thread) :
    total (Worker.loops target) (ts.map .transport) = 0 := by
  refine total_eq_zero.mpr fun w hw => ?_
  obtain ⟨th, _, rfl⟩ := List.mem_map.mp hw
  rfl

theorem total_loops_serve (target : String) (serves : List Serve) :
    total (Worker.loops target) (serves.map fun s => .transport (.serve s)) = 0 := by
  refine total_eq_zero.mpr fun w hw => ?_
  obtain ⟨s, _, rfl⟩ := List.mem_map.mp hw
  rfl

section Loops

variable {r r' r₁ : PeerReconnector} {w : Worker} {ws : List Worker} {target : String}
  {delay : Int64} {loops : List Loop}

/-- What `schedule` starts is what it says is being dialed. -/
theorem PeerReconnector.schedule_loops (h : r.schedule target delay = (r₁, loops))
    (x : String) : (if x ∈ r₁.dialing then 1 else 0) =
      (if x ∈ r.dialing then 1 else 0) + total (Worker.loops x) (loops.map .loop) := by
  rcases schedule_cases h with ⟨rfl, rfl, _⟩ | ⟨rfl, rfl, hnot⟩
  · simp
  · by_cases hx : x = target
    · subst hx
      simp [hnot, Worker.loops, Loop.running, Loop.target]
    · simp [hx, Ne.symm hx, Worker.loops, Loop.running, Loop.target]

/-- A step changes the loops as it changes what is being dialed. -/
theorem Does.counts (h : Does r w r' ws) (hw : ∀ x, w.loops x = 1 → x ∈ r.dialing)
    (x : String) : (if x ∈ r'.dialing then 1 else 0) + w.loops x =
      (if x ∈ r.dialing then 1 else 0) + total (Worker.loops x) ws := by
  cases h with
  | transport hcall hnext =>
    rw [total_loops_transport]
    rfl
  | dials hnext =>
    rw [total_cons, total_loops_serve]
    rfl
  | ignores _ | pends _ | hands _ _ | started | begins target delay | succeeds target delay
  | fails target delay error => rfl
  | @late tp r₁ loops hschedule =>
    have hloops := r.schedule_loops hschedule x
    rw [total_cons]
    change (if x ∈ r₁.dialing then 1 else 0) + 0 = _ + (0 + _)
    omega
  | again target hschedule =>
    have hloops := r.schedule_loops hschedule x
    change _ + 0 = _
    omega
  | starts target left hschedule =>
    have hloops := r.schedule_loops hschedule x
    rw [total_cons]
    change _ + 0 = _ + (0 + _)
    omega
  | @waits l l' hl htarget _ hl' =>
    obtain ⟨target, delay, rfl⟩ := hl'
    have hnew : (Loop.trying target delay).running = true := rfl
    rw [total_cons, total_nil, Worker.loops_running hl, Worker.loops_running hnew, htarget,
      Nat.add_zero]
  | @stops l hl _ _ =>
    have hnew : (Loop.exiting l.target).running = true := rfl
    have htarget : (Loop.exiting l.target).target = l.target := rfl
    rw [total_cons, total_nil, Worker.loops_running hl, Worker.loops_running hnew, htarget,
      Nat.add_zero]
  | @exits target loops hloops _ =>
    have hnone : total (Worker.loops x) (loops.map .loop) = 0 := by
      rcases hloops with rfl | rfl
      · rfl
      · simp [Worker.loops, Loop.running]
    have hself : target ∈ r.dialing :=
      hw target (by simp [Worker.loops, Loop.running, Loop.target])
    rw [hnone]
    by_cases hx : x = target
    · subst hx
      simp [hself, Worker.loops, Loop.running, Loop.target]
    · simp [hx, Ne.symm hx, Worker.loops, Loop.target]

theorem PeerReconnector.schedule_aims (h : r.schedule target delay = (r₁, loops))
    (htarget : target ∈ r.target) : r₁.target = r.target ∧ r₁.cancelled = r.cancelled ∧
      ∀ u ∈ loops.map Worker.loop, u.Dials ∧ ∀ x ∈ u.aims, x ∈ r.target := by
  have hsame := schedule_onlyDialing h
  refine ⟨hsame.target, hsame.cancelled, ?_⟩
  rcases schedule_cases h with ⟨_, rfl, _⟩ | ⟨_, rfl, _⟩
  · exact nofun
  · exact List.forall_mem_singleton.mpr ⟨trivial, List.forall_mem_singleton.mpr htarget⟩

/-- The targets and the context stay, what is scheduled is a target, and a loop keeps to
its target in `Dial`. -/
theorem Does.aims (h : Does r w r' ws) (haims : ∀ x ∈ w.aims, x ∈ r.target)
    (hdials : w.Dials) :
    r'.target = r.target ∧ r'.cancelled = r.cancelled ∧
      ∀ u ∈ ws, u.Dials ∧ ∀ x ∈ u.aims, x ∈ r.target := by
  cases h with
  | transport hcall hnext =>
    exact ⟨rfl, rfl, List.forall_mem_map.mpr fun th _ => ⟨trivial, nofun⟩⟩
  | dials hnext =>
    refine ⟨rfl, rfl, List.forall_mem_cons.mpr ⟨?_, ?_⟩⟩
    · exact ⟨(Handler.next_dials hnext hdials).1, haims⟩
    · exact List.forall_mem_map.mpr fun s _ => ⟨trivial, nofun⟩
  | ignores _ | pends _ => exact ⟨rfl, rfl, List.forall_mem_singleton.mpr ⟨trivial, nofun⟩⟩
  | hands htarget _ =>
    refine ⟨rfl, rfl, List.forall_mem_singleton.mpr ⟨trivial, ?_⟩⟩
    exact List.forall_mem_singleton.mpr htarget
  | late tp hschedule =>
    obtain ⟨htarget, hcancelled, hloops⟩ :=
      PeerReconnector.schedule_aims hschedule (haims _ List.mem_cons_self)
    exact ⟨htarget, hcancelled, List.forall_mem_cons.mpr ⟨⟨trivial, nofun⟩, hloops⟩⟩
  | again target hschedule =>
    exact PeerReconnector.schedule_aims hschedule (haims target List.mem_cons_self)
  | starts target left hschedule =>
    obtain ⟨htarget, hcancelled, hloops⟩ :=
      PeerReconnector.schedule_aims hschedule (haims target List.mem_cons_self)
    refine ⟨htarget, hcancelled, List.forall_mem_cons.mpr ⟨⟨trivial, ?_⟩, hloops⟩⟩
    exact fun x hx => haims x (List.mem_cons_of_mem target hx)
  | started => exact ⟨rfl, rfl, nofun⟩
  | begins target delay => exact ⟨rfl, rfl, List.forall_mem_singleton.mpr ⟨rfl, haims⟩⟩
  | waits hl htarget _ hl' =>
    obtain ⟨target, delay, rfl⟩ := hl'
    refine ⟨rfl, rfl, List.forall_mem_singleton.mpr ⟨trivial, ?_⟩⟩
    refine List.forall_mem_singleton.mpr (haims _ ?_)
    rw [htarget]
    exact List.mem_cons_self
  | stops _ _ _ | succeeds target delay | fails target delay error =>
    exact ⟨rfl, rfl, List.forall_mem_singleton.mpr ⟨trivial, haims⟩⟩
  | exits target hloops _ =>
    rcases hloops with rfl | rfl
    · exact ⟨rfl, rfl, nofun⟩
    · exact ⟨rfl, rfl, List.forall_mem_singleton.mpr ⟨trivial, haims⟩⟩

end Loops

/-- What holds in every run: the accounts of the transport are right, the running loops
are those of the targets being dialed, one for each, only targets are scheduled, and
every loop dials its target. -/
structure Kept (r : PeerReconnector) (workers : List Worker) : Prop where
  accounted : Accounted r.tr (workers.flatMap Worker.threads)
  loops : ∀ x, total (Worker.loops x) workers = if x ∈ r.dialing then 1 else 0
  aims : ∀ w ∈ workers, w.Dials ∧ ∀ x ∈ w.aims, x ∈ r.target
  outward : r.tr.Outward

namespace Kept

variable {r r' : PeerReconnector} {w : Worker} {before after ws workers : List Worker}
  {x : String} {tp : TCPPeer}

theorem new (maxPeers : Int) (targets : List String) (minBackoff maxBackoff : Int64) :
    Kept (.new maxPeers targets minBackoff maxBackoff) [] where
  accounted := .new maxPeers
  loops := fun _ => rfl
  aims := nofun
  outward := nofun

/-- A call from outside. -/
theorem start (h : Kept r workers)
    (haccounted : Accounted r.tr (workers.flatMap Worker.threads ++ w.threads))
    (hloops : ∀ x, w.loops x = 0) (haims : w.Dials ∧ ∀ x ∈ w.aims, x ∈ r.target) :
    Kept r (workers ++ [w]) where
  accounted := by
    rw [List.flatMap_append, List.flatMap_singleton]
    exact haccounted
  loops := by
    intro x
    rw [total_append, total_cons, hloops x]
    exact h.loops x
  aims := by
    intro u hu
    rcases List.mem_append.mp hu with hu | hu
    · exact h.aims u hu
    · rw [List.mem_singleton.mp hu]
      exact haims
  outward := h.outward

theorem mem_dialing (h : Kept r workers) (hmem : w ∈ workers) (hw : w.loops x = 1) :
    x ∈ r.dialing := by
  have hle := @le_total _ (Worker.loops x) w workers hmem
  rw [hw, h.loops x] at hle
  by_contra hnot
  rw [if_neg hnot] at hle
  omega

theorem step (h : Kept r (before ++ w :: after)) (hdoes : Does r w r' ws) :
    Kept r' (before ++ ws ++ after) := by
  obtain ⟨hdials, haims⟩ := h.aims w (by simp)
  obtain ⟨htarget, _, hnew⟩ := hdoes.aims haims hdials
  refine ⟨?_, ?_, ?_, hdoes.outward h.outward⟩
  · have haccounted := h.accounted
    rw [List.flatMap_append, List.flatMap_cons, ← List.append_assoc] at haccounted
    rw [List.flatMap_append, List.flatMap_append]
    exact hdoes.accounted haccounted
  · intro x
    have hcounts := hdoes.counts (fun _ => h.mem_dialing (by simp)) x
    have hsum := @total_replace _ (Worker.loops x) before after ws w
    have hloops := h.loops x
    omega
  · rw [htarget]
    exact forall_replace h.aims (fun _ _ hu => hu) hnew

/-- The loop of a target that is being dialed. -/
theorem loop_of_dialing (h : Kept r (before ++ w :: after)) (hx : x ∈ r.dialing)
    (hw : w.loops x = 0) :
    ∃ l, .loop l ∈ before ++ after ∧ l.running = true ∧ l.target = x := by
  have hsum := h.loops x
  rw [if_pos hx, total_append, total_cons, hw] at hsum
  by_contra hno
  have hnone : total (Worker.loops x) (before ++ after) = 0 := by
    refine total_eq_zero.mpr fun u hu => ?_
    cases u with
    | loop l => exact if_neg fun hl => hno ⟨l, hu, hl.1, hl.2⟩
    | _ => rfl
  rw [total_append] at hnone
  omega

/-- A target that is being dialed is one. -/
theorem dialing_target (h : Kept r (before ++ w :: after)) (hx : x ∈ r.dialing) :
    x ∈ r.target := by
  by_contra hnot
  have hnone : total (Worker.loops x) (before ++ w :: after) = 0 := by
    refine total_eq_zero.mpr fun u hu => ?_
    cases u with
    | loop l =>
      refine if_neg fun hl => hnot ?_
      exact (h.aims (.loop l) hu).2 x (List.mem_singleton.mpr hl.2.symm)
    | _ => rfl
  rw [h.loops x, if_pos hx] at hnone
  cases hnone

/-- A disconnect callback looks for the target that its peer was dialed to. -/
theorem disconnectTarget (h : Kept r workers) (hw : w ∈ workers)
    (hcallback : w.callback? = some tp) (hdialed : tp.Dialed x) : tp.disconnectTarget = x := by
  have hpeer : ∃ th ∈ w.threads, th.peer? = some tp := by
    cases w with
    | transport th =>
      refine ⟨th, List.mem_singleton_self _, ?_⟩
      cases th with
      | serve s => cases s <;> cases hcallback <;> rfl
      | _ => cases hcallback
    | scheduling tp' =>
      cases hcallback
      exact ⟨_, List.mem_singleton_self _, rfl⟩
    | loop l | starter left => cases hcallback
  obtain ⟨th, hth, hpeer⟩ := hpeer
  have hmem : th ∈ workers.flatMap Worker.threads := List.mem_flatMap.mpr ⟨w, hw, hth⟩
  have hle := @le_total _ (mark Thread.peer? tp) th _ hmem
  have hheld := h.accounted.held tp
  rw [mark_self hpeer] at hle
  have hopened : tp ∈ r.tr.opened := List.count_pos_iff.mp (by omega)
  unfold TCPPeer.disconnectTarget
  rw [if_pos (h.outward tp hopened hdialed.1), hdialed.2]

end Kept

/-! ## Targets that stay covered -/

/-- The loop ends without another attempt, unless a disconnect has been noted. -/
def Loop.settled : Loop → Bool
  | .dialing _ _ h => h.settled
  | .exiting _ => true
  | _ => false

section Covers

variable {r r' : PeerReconnector} {w : Worker} {before after ws workers : List Worker}
  {x : String}

theorem Worker.callback_of_owed {tp : TCPPeer} (h : w.owed? = some tp) :
    w.callback? = some tp := by
  cases w with
  | scheduling tp' => cases h
  | _ => exact h

/-- A worker that owes a disconnect callback for the target goes on to it, and the
callback notes the disconnect or goes on to schedule a loop. -/
theorem Does.owes {tp : TCPPeer} (h : Does r w r' ws) (hlive : r.cancelled = false)
    (htarget : x ∈ r.target) (howed : w.owed? = some tp) (hdialed : tp.Dialed x)
    (haims : tp.disconnectTarget = x) :
    (∃ u ∈ ws, u.owed? = some tp) ∨ (x ∈ r.dialing ∧ x ∈ r'.pending) ∨
      (x ∉ r.dialing ∧ .scheduling tp ∈ ws) := by
  cases h with
  | @transport choice th t ts hcall hnext =>
    cases th with
    | serve s =>
      cases s with
      | unlisted tp' =>
        cases howed
        cases hnext
        exact .inl ⟨_, List.mem_singleton_self _, rfl⟩
      | notifying tp' => cases hcall
      | _ => cases howed
    | _ => cases howed
  | ignores hnot =>
    cases howed
    rcases hnot with hcancelled | hinbound | hother
    · rw [hlive] at hcancelled
      cases hcancelled
    · rw [hdialed.1] at hinbound
      cases hinbound
    · rw [haims] at hother
      exact absurd htarget hother
  | pends hdialing =>
    cases howed
    rw [haims] at hdialing
    refine .inr (.inl ⟨hdialing, ?_⟩)
    change x ∈ insert tp.disconnectTarget r.pending
    rw [haims]
    exact Finset.mem_insert_self _ _
  | hands _ hdialing =>
    cases howed
    rw [haims] at hdialing
    exact .inr (.inr ⟨hdialing, List.mem_singleton_self _⟩)
  | _ => cases howed

/-- A noted disconnect stays noted until the loop ends. -/
theorem Does.pending (h : Does r w r' ws) (hx : x ∈ r.pending) :
    x ∈ r'.pending ∨ w = .loop (.exiting x) := by
  cases h with
  | pends _ => exact .inl (Finset.mem_insert_of_mem hx)
  | late tp hschedule | again target hschedule | starts target left hschedule =>
    have hsame := PeerReconnector.schedule_onlyDialing hschedule
    exact .inl (hsame.pending ▸ hx)
  | exits target _ _ =>
    by_cases heq : x = target
    · exact .inr (heq ▸ rfl)
    · exact .inl (Finset.mem_erase.mpr ⟨heq, hx⟩)
  | _ => exact .inl hx

/-- While a target is being dialed, what holds it stays, until its loop ends. -/
theorem Held.step (hkept : Kept r (before ++ w :: after)) (hlive : r.cancelled = false)
    (hdoes : Does r w r' ws) (hdialing : x ∈ r.dialing) (hexit : w ≠ .loop (.exiting x))
    (h : r.Held (before ++ w :: after) x) : r'.Held (before ++ ws ++ after) x := by
  rcases h with hdialed | ⟨u, hu, tp, howed, hdialed⟩ | hpending
  · have haccounted := hkept.accounted
    rw [List.flatMap_append, List.flatMap_cons, ← List.append_assoc] at haccounted
    rcases hdoes.hasDialed haccounted hdialed with hstays | ⟨u, hu, howed⟩
    · exact .inl hstays
    · exact .inr (.inl ⟨u, by simp [hu], howed⟩)
  · have haims := hkept.disconnectTarget hu (Worker.callback_of_owed howed) hdialed
    rcases List.mem_append.mp hu with hu | hu
    · exact .inr (.inl ⟨u, by simp [hu], tp, howed, hdialed⟩)
    rcases List.mem_cons.mp hu with rfl | hu
    · rcases hdoes.owes hlive (hkept.dialing_target hdialing) howed hdialed haims with
        ⟨v, hv, howed'⟩ | ⟨_, hpending⟩ | ⟨hnot, _⟩
      · exact .inr (.inl ⟨v, by simp [hv], tp, howed', hdialed⟩)
      · exact .inr (.inr hpending)
      · exact absurd hdialing hnot
    · exact .inr (.inl ⟨u, by simp [hu], tp, howed, hdialed⟩)
  · exact .inr (.inr ((hdoes.pending hpending).resolve_right hexit))

/-- What `schedule` leaves behind for its target, when the context is live. -/
theorem Kept.schedule {r₁ : PeerReconnector} {delay : Int64} {loops : List Loop}
    (hkept : Kept r (before ++ w :: after)) (hlive : r.cancelled = false)
    (hw : w.loops x = 0) (hschedule : r.schedule x delay = (r₁, loops)) :
    ∃ l, (.loop l ∈ before ++ after ∨ l ∈ loops) ∧ l.target = x := by
  rcases PeerReconnector.schedule_cases hschedule with ⟨_, _, hnot⟩ | ⟨_, rfl, _⟩
  · rcases hnot with hcancelled | hdialing
    · rw [hlive] at hcancelled
      cases hcancelled
    · obtain ⟨l, hl, _, htarget⟩ := hkept.loop_of_dialing hdialing hw
      exact ⟨l, .inl hl, htarget⟩
  · exact ⟨_, .inr (List.mem_singleton_self _), rfl⟩

/-- A loop goes on, unless it ends. -/
theorem Does.loop_goesOn {l : Loop} (h : Does r (.loop l) r' ws) :
    (∃ l', .loop l' ∈ ws ∧ l'.target = l.target) ∨
      (l = .exiting l.target ∧ r'.tr = r.tr ∧
        (r.cancelled = false → l.target ∉ r.pending)) ∨
      l = .retrying l.target := by
  cases h with
  | dials hnext => exact .inl ⟨_, List.mem_cons_self, rfl⟩
  | again target hschedule => exact .inr (.inr rfl)
  | begins target delay | stops _ _ _ | succeeds target delay | fails target delay error =>
    exact .inl ⟨_, List.mem_singleton_self _, rfl⟩
  | waits _ htarget _ _ => exact .inl ⟨_, List.mem_singleton_self _, htarget⟩
  | exits target hloops hretry =>
    rcases hloops with rfl | rfl
    · exact .inr (.inl ⟨rfl, rfl, fun hlive hpending => nomatch hretry hlive hpending⟩)
    · exact .inl ⟨_, List.mem_singleton_self _, rfl⟩

/-- A disconnect callback goes on, or the target of its peer is being dialed. -/
theorem Does.callback_goesOn {tp : TCPPeer} (hkept : Kept r (before ++ w :: after))
    (h : Does r w r' ws) (hlive : r.cancelled = false) (htarget : x ∈ r.target)
    (hcallback : w.callback? = some tp) (hdialed : tp.Dialed x) :
    (∃ u ∈ ws, u.callback? = some tp) ∨
      ∃ l, .loop l ∈ before ++ ws ++ after ∧ l.target = x := by
  have haims := hkept.disconnectTarget (by simp) hcallback hdialed
  have hold : ∀ l, .loop l ∈ before ++ after → .loop l ∈ before ++ ws ++ after := by
    intro l hl
    rcases List.mem_append.mp hl with hl | hl <;> simp [hl]
  cases w with
  | scheduling tp' =>
    cases hcallback
    cases h with
    | late _ hschedule =>
      rw [haims] at hschedule
      obtain ⟨l, hl, htarget⟩ := hkept.schedule hlive rfl hschedule
      rcases hl with hl | hl
      · exact .inr ⟨l, hold l hl, htarget⟩
      · exact .inr ⟨l, by simp [hl], htarget⟩
  | transport th =>
    rcases h.owes hlive htarget hcallback hdialed haims with ⟨u, hu, howed⟩ |
      ⟨hdialing, _⟩ | ⟨_, hscheduling⟩
    · exact .inl ⟨u, hu, Worker.callback_of_owed howed⟩
    · obtain ⟨l, hl, _, htarget⟩ := hkept.loop_of_dialing hdialing rfl
      exact .inr ⟨l, hold l hl, htarget⟩
    · exact .inl ⟨_, hscheduling, rfl⟩
  | loop l | starter left => cases hcallback

/-- A target stays covered, if what a loop leaves behind when it ends is held. -/
theorem Covered.step (hkept : Kept r (before ++ w :: after)) (hlive : r.cancelled = false)
    (hsettled : ∀ l, .loop l ∈ before ++ w :: after → l.settled = true →
      r.Held (before ++ w :: after) l.target)
    (hdoes : Does r w r' ws) (htarget : x ∈ r.target)
    (h : r.Covered (before ++ w :: after) x) : r'.Covered (before ++ ws ++ after) x := by
  have hold : ∀ u ∈ before ++ after, u ∈ before ++ ws ++ after := by
    intro u hu
    rcases List.mem_append.mp hu with hu | hu <;> simp [hu]
  have hothers : ∀ u ∈ before ++ w :: after, u = w ∨ u ∈ before ++ ws ++ after := by
    intro u hu
    rcases List.mem_append.mp hu with hu | hu
    · exact .inr (by simp [hu])
    · rcases List.mem_cons.mp hu with hu | hu
      · exact .inl hu
      · exact .inr (by simp [hu])
  rcases h with ⟨l, hl, rfl⟩ | hdialed | ⟨u, hu, tp, hcallback, hdialed⟩
  · rcases hothers _ hl with rfl | hmem
    · rcases hdoes.loop_goesOn with ⟨l', hl', htarget'⟩ | ⟨heq, htr, hpending⟩ | heq
      · exact .inl ⟨l', by simp [hl'], htarget'⟩
      · rcases hsettled l hl (by rw [heq]; rfl) with hdialed | ⟨u, hu, tp, howed, hdialed⟩ |
          hnoted
        · rw [← htr] at hdialed
          exact .inr (.inl hdialed)
        · rcases hothers u hu with rfl | hmem
          · cases howed
          · exact .inr (.inr ⟨u, hmem, tp, Worker.callback_of_owed howed, hdialed⟩)
        · exact absurd hnoted (hpending hlive)
      · rw [heq] at hdoes hkept
        cases hdoes with
        | again _ hschedule =>
          obtain ⟨l', hl', htarget'⟩ := hkept.schedule hlive rfl hschedule
          rcases hl' with hl' | hl'
          · exact .inl ⟨l', hold _ hl', htarget'⟩
          · exact .inl ⟨l', by simp [hl'], htarget'⟩
        | waits hl _ _ _ | stops hl _ _ => cases hl
    · exact .inl ⟨l, hmem, rfl⟩
  · have haccounted := hkept.accounted
    rw [List.flatMap_append, List.flatMap_cons, ← List.append_assoc] at haccounted
    rcases hdoes.hasDialed haccounted hdialed with hstays | ⟨u, hu, tp, howed, hdialed⟩
    · exact .inr (.inl hstays)
    · exact .inr (.inr ⟨u, by simp [hu], tp, Worker.callback_of_owed howed, hdialed⟩)
  · rcases hothers u hu with rfl | hmem
    · rcases hdoes.callback_goesOn hkept hlive htarget hcallback hdialed with
        ⟨v, hv, hcallback'⟩ | hloop
      · exact .inr (.inr ⟨v, by simp [hv], tp, hcallback', hdialed⟩)
      · exact .inl hloop
    · exact .inr (.inr ⟨u, hmem, tp, hcallback, hdialed⟩)

/-- A loop will end without another attempt because it already would, because it has
registered its connection, or because its connection is refused. -/
theorem Does.settles {l : Loop} (h : Does r w r' ws) (hlive : r.cancelled = false)
    (hdials : w.Dials) (hl : .loop l ∈ ws) (hsettled : l.settled = true) :
    (∃ target delay handler, w = .loop (.dialing target delay handler) ∧ l.target = target ∧
      handler.settled = true) ∨
    ∃ target delay tp, w = .loop (.dialing target delay (.registering tp)) ∧
      l.target = target ∧ (r'.tr.HasDialed target ∨ r.tr.Refuses tp) := by
  have hschedule : ∀ {target : String} {delay : Int64} {r₁ : PeerReconnector}
      {loops : List Loop}, r.schedule target delay = (r₁, loops) → l ∉ loops := by
    intro target delay r₁ loops hschedule hmem
    rcases PeerReconnector.schedule_cases hschedule with ⟨_, rfl, _⟩ | ⟨_, rfl, _⟩
    · cases hmem
    · rw [List.mem_singleton.mp hmem] at hsettled
      cases hsettled
  cases h with
  | transport hcall hnext =>
    obtain ⟨th, _, heq⟩ := List.mem_map.mp hl
    cases heq
  | @dials choice target delay h t h' serves hnext =>
    rcases List.mem_cons.mp hl with heq | hmem
    · cases heq
      rcases (Handler.next_dials hnext hdials).2 hsettled with hold | ⟨tp, rfl, hregisters⟩
      · exact .inl ⟨target, delay, h, rfl, rfl, hold⟩
      · refine .inr ⟨target, delay, tp, rfl, rfl, hregisters.imp_left fun hregisters => ?_⟩
        obtain ⟨t₁, hstart, heq⟩ := hregisters.eq
        refine ⟨tp.remoteAddr, tp, ?_, hdials⟩
        rw [heq]
        exact Std.ExtTreeMap.getElem?_insert_self
    · obtain ⟨s, _, heq⟩ := List.mem_map.mp hmem
      cases heq
  | ignores _ | pends _ | hands _ _ => cases List.mem_singleton.mp hl
  | late tp hsched | starts target left hsched =>
    rcases List.mem_cons.mp hl with heq | hmem
    · cases heq
    · exact absurd (by simpa using hmem) (hschedule hsched)
  | again target hsched => exact absurd (by simpa using hl) (hschedule hsched)
  | started => cases hl
  | begins target delay | fails target delay error =>
    cases List.mem_singleton.mp hl
    cases hsettled
  | waits _ _ _ hl' =>
    obtain ⟨target, delay, rfl⟩ := hl'
    cases List.mem_singleton.mp hl
    cases hsettled
  | stops _ _ hcancelled =>
    rw [hlive] at hcancelled
    cases hcancelled
  | succeeds target delay =>
    cases List.mem_singleton.mp hl
    exact .inl ⟨target, delay, _, rfl, rfl, rfl⟩
  | exits target hloops _ =>
    rcases hloops with rfl | rfl
    · cases hl
    · cases List.mem_singleton.mp hl
      cases hsettled

/-- `Start` comes to one target after the other. -/
theorem Does.starter {left : List String} (hkept : Kept r (before ++ w :: after))
    (h : Does r w r' ws) (hlive : r.cancelled = false) (hmem : .starter left ∈ ws) :
    ∃ target, w = .starter (target :: left) ∧
      ∃ l, .loop l ∈ before ++ ws ++ after ∧ l.target = target := by
  have hnone : ∀ loops : List Loop, .starter left ∉ loops.map Worker.loop := by
    intro loops hmem
    obtain ⟨l, _, heq⟩ := List.mem_map.mp hmem
    cases heq
  cases h with
  | transport hcall hnext =>
    obtain ⟨th, _, heq⟩ := List.mem_map.mp hmem
    cases heq
  | dials hnext =>
    rcases List.mem_cons.mp hmem with heq | hmem
    · cases heq
    · obtain ⟨s, _, heq⟩ := List.mem_map.mp hmem
      cases heq
  | late tp _ =>
    rcases List.mem_cons.mp hmem with heq | hmem
    · cases heq
    · exact absurd hmem (hnone _)
  | again target _ | exits target _ _ => exact absurd hmem (hnone _)
  | starts target left' hschedule =>
    rcases List.mem_cons.mp hmem with heq | hmem
    · cases heq
      obtain ⟨l, hl, htarget⟩ := hkept.schedule hlive rfl hschedule
      refine ⟨target, rfl, l, ?_, htarget⟩
      rcases hl with hl | hl
      · rcases List.mem_append.mp hl with hl | hl <;> simp [hl]
      · simp [hl]
    · exact absurd hmem (hnone _)
  | started => cases hmem
  | _ => cases List.mem_singleton.mp hmem

theorem Does.starting (h : Does r w r' ws) (hstarted : r'.started = true) :
    r.started = true ∨ w = .starter [] := by
  cases h with
  | started => exact .inr rfl
  | late tp hschedule | again target hschedule | starts target left hschedule =>
    have hsame := PeerReconnector.schedule_onlyDialing hschedule
    exact .inl (hsame.started ▸ hstarted)
  | _ => exact .inl hstarted

end Covers

/-- While the context is live: what a loop leaves behind when it ends is held, and the
targets that `Start` has come to are covered. -/
structure Secure (r : PeerReconnector) (workers : List Worker) : Prop where
  settled : ∀ l, .loop l ∈ workers → l.settled = true → r.Held workers l.target
  starting : ∀ left, .starter left ∈ workers → ∀ x ∈ r.target, x ∈ left ∨ r.Covered workers x
  started : r.started = true → ∀ x ∈ r.target, r.Covered workers x

namespace Secure

variable {r r' : PeerReconnector} {w : Worker} {before after ws workers : List Worker}

theorem settled_step (hkept : Kept r (before ++ w :: after)) (hlive : r.cancelled = false)
    (h : Secure r (before ++ w :: after)) (hdoes : Does r w r' ws)
    (hkeeps : ∀ target delay tp, w = .loop (.dialing target delay (.registering tp)) →
      r.tr.Refuses tp → r.Held (before ++ w :: after) target) :
    ∀ l, .loop l ∈ before ++ ws ++ after → l.settled = true →
      r'.Held (before ++ ws ++ after) l.target := by
  have hrunning : ∀ l : Loop, l.settled = true → l.running = true := by
    intro l hl
    cases l with
    | retrying target => cases hl
    | _ => rfl
  have hdialing : ∀ l, .loop l ∈ before ++ w :: after → l.settled = true →
      l.target ∈ r.dialing := by
    intro l hl hsettled
    refine hkept.mem_dialing hl ?_
    rw [Worker.loops_running (hrunning l hsettled), if_pos rfl]
  intro l hl hsettled
  by_cases hmem : .loop l ∈ before ++ after
  · have hmem' : .loop l ∈ before ++ w :: after := by
      rcases List.mem_append.mp hmem with hmem | hmem <;> simp [hmem]
    refine Held.step hkept hlive hdoes (hdialing l hmem' hsettled) ?_
      (h.settled l hmem' hsettled)
    -- The loop that ends would be a second one for the target.
    rintro rfl
    have hsum := hkept.loops l.target
    have hle := @le_total _ (Worker.loops l.target) (.loop l) _ hmem
    rw [Worker.loops_running (hrunning l hsettled), if_pos rfl, total_append] at hle
    have hself : Worker.loops l.target (.loop (.exiting l.target)) = 1 := if_pos ⟨rfl, rfl⟩
    rw [if_pos (hdialing l hmem' hsettled), total_append, total_cons, hself] at hsum
    omega
  · have hnew : .loop l ∈ ws := by
      simp only [List.mem_append] at hl hmem
      tauto
    have hdials := (hkept.aims w (by simp)).1
    rcases hdoes.settles hlive hdials hnew hsettled with
      ⟨target, delay, handler, rfl, rfl, hold⟩ | ⟨target, delay, tp, rfl, rfl, hregistered⟩
    · have hheld := h.settled (.dialing l.target delay handler) (by simp) hold
      refine Held.step hkept hlive hdoes ?_ nofun hheld
      exact hdialing (.dialing l.target delay handler) (by simp) hold
    · rcases hregistered with hdialed | hrefuses
      · exact .inl hdialed
      · refine Held.step hkept hlive hdoes ?_ nofun (hkeeps _ _ _ rfl hrefuses)
        exact hkept.mem_dialing (w := .loop (.dialing l.target delay (.registering tp)))
          (by simp) (if_pos ⟨rfl, rfl⟩)

theorem step (hkept : Kept r (before ++ w :: after)) (hlive : r.cancelled = false)
    (h : Secure r (before ++ w :: after)) (hdoes : Does r w r' ws)
    (hkeeps : ∀ target delay tp, w = .loop (.dialing target delay (.registering tp)) →
      r.tr.Refuses tp → r.Held (before ++ w :: after) target) :
    Secure r' (before ++ ws ++ after) := by
  obtain ⟨hdials, haims⟩ := hkept.aims w (by simp)
  have htarget := (hdoes.aims haims hdials).1
  have hcovered : ∀ x ∈ r.target, r.Covered (before ++ w :: after) x →
      r'.Covered (before ++ ws ++ after) x :=
    fun _ hx => Covered.step hkept hlive h.settled hdoes hx
  refine ⟨h.settled_step hkept hlive hdoes hkeeps, ?_, ?_⟩
  · intro left hmem x hx
    rw [htarget] at hx
    by_cases hnew : .starter left ∈ ws
    · obtain ⟨target, rfl, hloop⟩ := hdoes.starter hkept hlive hnew
      rcases h.starting (target :: left) (by simp) x hx with hleft | hdone
      · rcases List.mem_cons.mp hleft with rfl | hleft
        · exact .inr (.inl hloop)
        · exact .inl hleft
      · exact .inr (hcovered x hx hdone)
    · have hold : .starter left ∈ before ++ w :: after := by
        simp only [List.mem_append, List.mem_cons] at hmem ⊢
        tauto
      exact (h.starting left hold x hx).imp_right (hcovered x hx)
  · intro hstarted x hx
    rw [htarget] at hx
    rcases hdoes.starting hstarted with hold | rfl
    · exact hcovered x hx (h.started hold x hx)
    · exact hcovered x hx ((h.starting [] (by simp) x hx).resolve_left nofun)

/-- A new worker takes nothing away. -/
theorem start (h : Secure r workers) (hloop : ∀ l, w ≠ .loop l)
    (hstarter : ∀ left, w = .starter left → ∀ x ∈ r.target, x ∈ left) :
    Secure r (workers ++ [w]) := by
  have hheld : ∀ x, r.Held workers x → r.Held (workers ++ [w]) x := by
    rintro x (hdialed | ⟨u, hu, howed⟩ | hpending)
    · exact .inl hdialed
    · exact .inr (.inl ⟨u, List.mem_append_left _ hu, howed⟩)
    · exact .inr (.inr hpending)
  have hcovered : ∀ x, r.Covered workers x → r.Covered (workers ++ [w]) x := by
    rintro x (⟨l, hl, htarget⟩ | hdialed | ⟨u, hu, hcallback⟩)
    · exact .inl ⟨l, List.mem_append_left _ hl, htarget⟩
    · exact .inr (.inl hdialed)
    · exact .inr (.inr ⟨u, List.mem_append_left _ hu, hcallback⟩)
  refine ⟨?_, ?_, fun hstarted x hx => hcovered x (h.started hstarted x hx)⟩
  · intro l hl hsettled
    rcases List.mem_append.mp hl with hl | hl
    · exact hheld _ (h.settled l hl hsettled)
    · exact absurd (List.mem_singleton.mp hl).symm (hloop l)
  · intro left hleft x hx
    rcases List.mem_append.mp hleft with hleft | hleft
    · exact (h.starting left hleft x hx).imp_right (hcovered x)
    · exact .inl (hstarter left (List.mem_singleton.mp hleft).symm x hx)

end Secure

/-! ## Runs -/

namespace PeerReconnector

/-- A connection of a loop is refused only while something holds the loop's target. -/
def System.Keeps (s : System) : Action → Prop
  | .run i _ => ∀ target delay tp,
      s.threads[i]? = some (.loop (.dialing target delay (.registering tp))) →
      s.shared.tr.Refuses tp → s.shared.Held s.threads target
  | _ => True

theorem System.step_start (s : System) (order : List String) :
    s.step (.start order) = if order.Nodup ∧ order.toFinset = s.shared.target then
      Pool.start s (.starter order) else s := rfl

/-- Every action keeps what holds in every run, and the targets. -/
theorem Kept.action {s : System} (h : Kept s.shared s.threads) (a : Action) :
    Kept (s.step a).shared (s.step a).threads ∧
      (s.step a).shared.target = s.shared.target := by
  cases a with
  | call c =>
    refine ⟨h.start ?_ (fun _ => rfl) ⟨trivial, nofun⟩, rfl⟩
    cases c <;> exact h.accounted.start rfl rfl
  | start order =>
    rw [System.step_start]
    by_cases horder : order.Nodup ∧ order.toFinset = s.shared.target
    · rw [if_pos horder]
      refine ⟨h.start ?_ (fun _ => rfl) ⟨trivial, fun x hx => ?_⟩, rfl⟩
      · rw [show (Worker.starter order).threads = [] from rfl, List.append_nil]
        exact h.accounted
      · rw [← horder.2]
        exact List.mem_toFinset.mpr hx
    · rw [if_neg horder]
      exact ⟨h, rfl⟩
  | cancel => exact ⟨⟨h.accounted, h.loops, h.aims, h.outward⟩, rfl⟩
  | run i choice =>
    rcases Pool.run_cases Worker.next s i choice with hsame |
      ⟨before, w, after, r', ws, hsplit, _, hnext, hrun⟩
    · have hstep : s.step (.run i choice) = s := hsame
      rw [hstep]
      exact ⟨h, rfl⟩
    · have hstep : s.step (.run i choice) = ⟨r', before ++ ws ++ after⟩ := hrun
      rw [hstep]
      rw [show s.threads = before ++ w :: after from congrArg Pool.threads hsplit] at h
      have hdoes := Worker.next_does hnext
      obtain ⟨hdials, haims⟩ := h.aims w (by simp)
      exact ⟨h.step hdoes, (hdoes.aims haims hdials).1⟩

theorem Secure.action {s : System} (hkept : Kept s.shared s.threads) {a : Action}
    (h : s.shared.cancelled = false → Secure s.shared s.threads) (hkeeps : s.Keeps a)
    (hlive : (s.step a).shared.cancelled = false) :
    Secure (s.step a).shared (s.step a).threads := by
  cases a with
  | call c => exact (h hlive).start nofun nofun
  | start order =>
    rw [System.step_start] at hlive ⊢
    by_cases horder : order.Nodup ∧ order.toFinset = s.shared.target
    · rw [if_pos horder] at hlive ⊢
      refine (h hlive).start nofun ?_
      rintro left heq x hx
      cases heq
      rw [← horder.2] at hx
      exact List.mem_toFinset.mp hx
    · rw [if_neg horder] at hlive ⊢
      exact h hlive
  | cancel => cases hlive
  | run i choice =>
    rcases Pool.run_cases Worker.next s i choice with hsame |
      ⟨before, w, after, r', ws, hsplit, hget, hnext, hrun⟩
    · have hstep : s.step (.run i choice) = s := hsame
      rw [hstep] at hlive ⊢
      exact h hlive
    · have hstep : s.step (.run i choice) = ⟨r', before ++ ws ++ after⟩ := hrun
      have hthreads : s.threads = before ++ w :: after := congrArg Pool.threads hsplit
      rw [hstep] at hlive ⊢
      have hdoes := Worker.next_does hnext
      rw [hthreads] at hkept h
      obtain ⟨hdials, haims⟩ := hkept.aims w (by simp)
      have hlive' : s.shared.cancelled = false :=
        (hdoes.aims haims hdials).2.1.symm.trans hlive
      refine Secure.step hkept hlive' (h hlive') hdoes ?_
      rintro target delay tp rfl hrefuses
      rw [← hthreads]
      exact hkeeps target delay tp hget hrefuses

section Runs

variable (maxPeers : Int) (targets : List String) (minBackoff maxBackoff : Int64)

theorem Kept.run (actions : List Action) :
    Kept (System.after maxPeers targets minBackoff maxBackoff actions).shared
        (System.after maxPeers targets minBackoff maxBackoff actions).threads ∧
      (System.after maxPeers targets minBackoff maxBackoff actions).shared.target =
        targets.toFinset :=
  Transition.run_invariant (P := fun _ _ => True)
    (I := fun s : System => Kept s.shared s.threads ∧ s.shared.target = targets.toFinset)
    (fun _ a _ hs => ⟨(Kept.action hs.1 a).1, (Kept.action hs.1 a).2.trans hs.2⟩)
    (Transition.along_of_forall fun _ _ _ => trivial)
    ⟨.new maxPeers targets minBackoff maxBackoff, rfl⟩

/-- In every run a target has at most one dial loop.  In a run in which the connection of
a loop is refused only while something holds the loop's target, every target is covered
once `Start` has returned, as long as the context is live. -/
theorem targets_covered (actions : List Action) :
    let s := System.after maxPeers targets minBackoff maxBackoff actions
    (∀ target, total (Worker.loops target) s.threads ≤ 1) ∧
    (Transition.Along System.step System.Keeps
        (.new maxPeers targets minBackoff maxBackoff) actions →
      s.shared.cancelled = false → s.shared.started = true →
      ∀ target ∈ targets, s.shared.Covered s.threads target) := by
  intro s
  obtain ⟨hkept, htarget⟩ := Kept.run maxPeers targets minBackoff maxBackoff actions
  refine ⟨fun target => ?_, fun hkeeps hlive hstarted target hmem => ?_⟩
  · rw [hkept.loops target]
    split <;> omega
  · have hstart : Secure (.new maxPeers targets minBackoff maxBackoff) [] :=
      ⟨nofun, nofun, nofun⟩
    have hsecure := Transition.run_invariant
      (I := fun s : System => Kept s.shared s.threads ∧
        (s.shared.cancelled = false → Secure s.shared s.threads))
      (fun _ a hkeeps hs => ⟨(Kept.action hs.1 a).1, Secure.action hs.1 hs.2 hkeeps⟩)
      hkeeps ⟨.new maxPeers targets minBackoff maxBackoff, fun _ => hstart⟩
    refine (hsecure.2 hlive).started hstarted target ?_
    have hmem' : target ∈ targets.toFinset := List.mem_toFinset.mpr hmem
    rw [← htarget] at hmem'
    exact hmem'

end Runs

/-- A transport for one peer has accepted one when the reconnector starts; it refuses the
connection that the loop dials, and the loop ends. -/
def Sample.full : List Action :=
  [.call .listenAndAccept, .run 0 .proceed, .run 0 .proceed,
    .run 0 (.connect "10.0.0.2:40000"), .run 0 .proceed, .run 1 .proceed, .run 1 .proceed,
    .run 1 .proceed, .run 1 .proceed, .start ["10.0.0.9:9000"], .run 3 .proceed,
    .run 3 .proceed, .run 3 .proceed, .run 3 .proceed, .run 3 .proceed,
    .run 3 (.connect "10.0.0.9:9000"), .run 3 .proceed, .run 3 .proceed, .run 3 .proceed,
    .run 3 .proceed, .run 3 .proceed, .run 3 .proceed, .run 3 .proceed, .run 3 .proceed]

def Sample.stuck : System := System.after 1 ["10.0.0.9:9000"] 1 1 Sample.full

theorem Sample.stuck_threads : Sample.stuck.threads =
      [.transport .accepting, .transport (.handler (.finishing none)),
        .transport (.serve (.serving ⟨0, "10.0.0.2:40000", false, ""⟩))] ∧
    Sample.stuck.shared.tr.peers.toList =
      [("10.0.0.2:40000", ⟨0, "10.0.0.2:40000", false, ""⟩)] := by
  decide +kernel

/-- The reconnector has started, its context is live and the transport is open, but the
target is lost. -/
theorem target_lost :
    Sample.stuck.shared.started = true ∧ Sample.stuck.shared.cancelled = false ∧
      Sample.stuck.shared.tr.state = .open_ ∧
      ¬ Sample.stuck.shared.Covered Sample.stuck.threads "10.0.0.9:9000" := by
  refine ⟨by decide +kernel, by decide +kernel, by decide +kernel, ?_⟩
  rintro (⟨l, hl, _⟩ | ⟨key, tp, hget, hdialed⟩ | ⟨w, hw, tp, hcallback, hdialed⟩)
  · rw [Sample.stuck_threads.1] at hl
    simp at hl
  · have hmem := Std.ExtTreeMap.mem_toList_iff_getElem?_eq_some.mpr hget
    rw [Sample.stuck_threads.2, List.mem_singleton] at hmem
    cases hmem
    cases hdialed.1
  · rw [Sample.stuck_threads.1] at hw
    simp only [List.mem_cons, List.not_mem_nil, or_false] at hw
    rcases hw with rfl | rfl | rfl <;> cases hcallback

/-- Whether the action makes the transport refuse the connection of a loop. -/
def Sample.refusal (s : System) : Action → Bool
  | .run i _ =>
    match s.threads[i]? with
    | some (.loop (.dialing _ _ (.registering tp))) => decide (s.shared.tr.Refuses tp)
    | _ => false
  | _ => false

theorem Sample.keeps_of_refusal (s : System) (a : Action) (h : refusal s a = false) :
    s.Keeps a := by
  cases a with
  | run i choice =>
    intro target delay tp hthread hrefuses
    simp [refusal, hthread, hrefuses] at h
  | call | start | cancel => trivial

/-- In a transport for two peers the same run ends with the target covered. -/
theorem targets_covered_sample :
    let s := System.after 2 ["10.0.0.9:9000"] 1 1 Sample.full
    s.shared.cancelled = false ∧ s.shared.started = true ∧
      s.shared.Covered s.threads "10.0.0.9:9000" := by
  have hkeeps : Transition.Along System.step System.Keeps (.new 2 ["10.0.0.9:9000"] 1 1)
      Sample.full :=
    Transition.Along.imp Sample.keeps_of_refusal (by decide +kernel)
  refine ⟨by decide +kernel, by decide +kernel, ?_⟩
  exact (targets_covered 2 ["10.0.0.9:9000"] 1 1 Sample.full).2 hkeeps (by decide +kernel)
    (by decide +kernel) _ List.mem_cons_self

end PeerReconnector

end StreamHive.Transport
