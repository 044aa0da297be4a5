import Mathlib.Data.List.Nodup
import StreamHive.Transport.TCPTransport

/-!
# What the goroutines account for

Each goroutine accounts for some units of tracked work and for at most one connection.
The work counter is the number of units, a tracked connection has exactly one goroutine
that will remove it, and a registered peer exactly one that will unregister it.

## Main results

* `Thread.next_performs` — what one step does, to the transport and to the accounts;
* `Accounted.step`, `Accounted.start` — the accounts stay right.
-/

namespace StreamHive.Transport

open Verified Threads

/-! ## Accounts -/

/-- The units of tracked work of a goroutine; `handlePeer` has started the work of the
serve loop before the loop runs. -/
@[simp] def Handler.units : Handler → Nat
  | .beginning _ | .returned _ => 0
  | .announcing _ | .starting _ => 2
  | _ => 1

@[simp] def Serve.units : Serve → Nat
  | .gone => 0
  | _ => 1

@[simp] def Thread.units : Thread → Nat
  | .listening | .stop _ => 0
  | .handler h => h.units
  | .serve s => s.units
  | _ => 1

/-- The connection at hand. -/
@[simp] def Handler.peer? : Handler → Option TCPPeer
  | .opened tp | .untracked tp | .handshaking tp | .failed tp | .registering tp
  | .refused tp | .late tp | .announcing tp | .starting tp | .leaving tp _ => some tp
  | .beginning _ | .dialing _ | .finishing _ | .returned _ => none

@[simp] def Serve.peer? : Serve → Option TCPPeer
  | .serving tp | .ended tp | .unlisted tp | .notifying tp | .notified tp => some tp
  | .gone => none

@[simp] def Thread.peer? : Thread → Option TCPPeer
  | .accepted tp | .rejecting tp => some tp
  | .handler h => h.peer?
  | .serve s => s.peer?
  | _ => none

/-- The connection that is tracked and that the goroutine, or the serve loop it starts,
will remove. -/
@[simp] def Handler.tracked? : Handler → Option TCPPeer
  | .handshaking tp | .failed tp | .registering tp | .refused tp | .late tp
  | .announcing tp | .starting tp | .leaving tp _ => some tp
  | _ => none

@[simp] def Serve.tracked? : Serve → Option TCPPeer
  | .serving tp | .ended tp | .unlisted tp => some tp
  | _ => none

@[simp] def Thread.tracked? : Thread → Option TCPPeer
  | .handler h => h.tracked?
  | .serve s => s.tracked?
  | _ => none

/-- The registered peer that the goroutine, or the serve loop it starts, will
unregister. -/
@[simp] def Handler.registered? : Handler → Option TCPPeer
  | .announcing tp | .starting tp => some tp
  | _ => none

@[simp] def Serve.registered? : Serve → Option TCPPeer
  | .serving tp | .ended tp => some tp
  | _ => none

@[simp] def Thread.registered? : Thread → Option TCPPeer
  | .handler h => h.registered?
  | .serve s => s.registered?
  | _ => none

/-- How many of the events of its peer have happened. -/
@[simp] def Thread.stage : Thread → Nat
  | .handler (.announcing _) => 1
  | .handler (.starting _) | .serve (.serving _) => 2
  | .serve (.ended _) | .serve (.unlisted _) | .serve (.notifying _) => 3
  | .serve (.notified _) => 4
  | _ => 0

/-- The connection that is not tracked and that the goroutine will track or close. -/
@[simp] def Thread.custody? : Thread → Option TCPPeer
  | .accepted tp | .rejecting tp | .handler (.opened tp) | .handler (.untracked tp) => some tp
  | _ => none

/-- The connection that the goroutine has closed and will remove. -/
@[simp] def Thread.leaving? : Thread → Option TCPPeer
  | .handler (.leaving tp _) => some tp
  | _ => none

/-- One when the goroutine accounts for the connection. -/
def mark (account : Thread → Option TCPPeer) (tp : TCPPeer) (th : Thread) : Nat :=
  if account th = some tp then 1 else 0

theorem mark_self {account : Thread → Option TCPPeer} {tp : TCPPeer} {th : Thread}
    (h : account th = some tp) : mark account tp th = 1 := if_pos h

theorem mark_none {account : Thread → Option TCPPeer} {th : Thread}
    (h : account th = none) (tp : TCPPeer) : mark account tp th = 0 := by
  unfold mark
  rw [h]
  rfl

theorem mark_tracked_le (tp : TCPPeer) (th : Thread) :
    mark Thread.tracked? tp th ≤ mark Thread.peer? tp th := by
  cases th with
  | handler h => cases h <;> simp [mark]
  | serve s => cases s <;> simp [mark]
  | _ => simp [mark]

theorem mark_registered_le (tp : TCPPeer) (th : Thread) :
    mark Thread.registered? tp th ≤ mark Thread.tracked? tp th := by
  cases th with
  | handler h => cases h <;> simp [mark]
  | serve s => cases s <;> simp [mark]
  | _ => simp [mark]

theorem mark_tracked_le_units (tp : TCPPeer) (th : Thread) :
    mark Thread.tracked? tp th ≤ th.units := by
  have hunits : th.tracked? = some tp → 1 ≤ th.units := by
    cases th with
    | handler h => cases h <;> simp
    | serve s => cases s <;> simp
    | _ => simp
  unfold mark
  split
  · exact hunits ‹_›
  · omega

/-! ## Steps -/

/-- What happens to a registered peer, in order. -/
def story : List PeerEvent := [.registered, .onPeer, .served, .onPeerDisconnected]

/-- The goroutines `ts` account for the connection of `th`, but may have let go of it. -/
structure Follows (th : Thread) (ts : List Thread) : Prop where
  peer : ∀ tp, total (mark Thread.peer? tp) ts ≤ mark Thread.peer? tp th
  tracked : ∀ tp, total (mark Thread.tracked? tp) ts = mark Thread.tracked? tp th
  registered : ∀ tp, total (mark Thread.registered? tp) ts = mark Thread.registered? tp th

/-- The goroutines `ts` also account for the work of `th`. -/
structure Quiet (th : Thread) (ts : List Thread) : Prop extends Follows th ts where
  units : total Thread.units ts = th.units

/-- The goroutines `ts` also stand where `th` did with its peer, and keep the connection
in its custody unless it is the one that is closed. -/
structure Steady (th : Thread) (ts : List Thread) (closed : Option TCPPeer) : Prop
    extends Quiet th ts where
  keeps : ∀ u ∈ ts, ∀ tp, u.peer? = some tp → th.peer? = some tp ∧ u.stage = th.stage
  drops : ∀ tp, th.peer? = some tp → (∃ u ∈ ts, u.peer? = some tp) ∨ th.stage = 0
  custody : ∀ tp, th.custody? = some tp → closed = some tp ∨ ∃ u ∈ ts, u.custody? = some tp
  leaves : ∀ u ∈ ts, ∀ tp, u.leaving? = some tp → closed = some tp

/-- The next event of a peer happens in its goroutine. -/
structure Notes (th : Thread) (tp : TCPPeer) (event : PeerEvent) (u : Thread) : Prop
    extends Quiet th [u] where
  before : th.peer? = some tp
  after : u.peer? = some tp
  event : story[th.stage]? = some event
  stage : u.stage = th.stage + 1
  custody : th.custody? = none
  leaving : u.leaving? = none

section Single

variable {th u : Thread} {closed : Option TCPPeer} {tp : TCPPeer} {event : PeerEvent}

theorem Quiet.single (hunits : u.units = th.units)
    (hpeer : u.peer? = th.peer? ∨ u.peer? = none) (htracked : u.tracked? = th.tracked?)
    (hregistered : u.registered? = th.registered?) : Quiet th [u] where
  units := by rw [total_cons, hunits]; rfl
  peer := by
    intro tp
    rw [total_cons, total_nil]
    rcases hpeer with hpeer | hpeer
    · unfold mark
      rw [hpeer]
      rfl
    · rw [mark_none hpeer]
      exact Nat.zero_le _
  tracked := by
    intro tp
    rw [total_cons, total_nil]
    unfold mark
    rw [htracked]
    rfl
  registered := by
    intro tp
    rw [total_cons, total_nil]
    unfold mark
    rw [hregistered]
    rfl

/-- A goroutine goes on with its connection. -/
theorem Steady.goesOn (hunits : u.units = th.units) (hpeer : u.peer? = th.peer?)
    (htracked : u.tracked? = th.tracked?) (hregistered : u.registered? = th.registered?)
    (hstage : u.stage = th.stage)
    (hcustody : u.custody? = th.custody?) (hleaving : u.leaving? = closed) :
    Steady th [u] closed where
  toQuiet := .single hunits (.inl hpeer) htracked hregistered
  keeps := by
    intro v hv tp htp
    rw [List.mem_singleton.mp hv] at htp ⊢
    exact ⟨hpeer ▸ htp, hstage⟩
  drops := fun tp htp => .inl ⟨u, by simp, hpeer.trans htp⟩
  custody := fun tp htp => .inr ⟨u, by simp, hcustody.trans htp⟩
  leaves := by
    intro v hv tp htp
    rw [List.mem_singleton.mp hv, hleaving] at htp
    exact htp

/-- A goroutine lets go of a connection that is not registered. -/
theorem Steady.letsGo (hunits : u.units = th.units) (hpeer : u.peer? = none)
    (htracked : u.tracked? = th.tracked?) (hregistered : u.registered? = th.registered?)
    (hstage : th.stage = 0)
    (hcustody : th.custody? = closed) (hleaving : u.leaving? = none) :
    Steady th [u] closed where
  toQuiet := .single hunits (.inr hpeer) htracked hregistered
  keeps := by
    intro v hv tp htp
    rw [List.mem_singleton.mp hv, hpeer] at htp
    cases htp
  drops := fun _ _ => .inr hstage
  custody := fun tp htp => .inl (hcustody.symm.trans htp)
  leaves := by
    intro v hv tp htp
    rw [List.mem_singleton.mp hv, hleaving] at htp
    cases htp

end Single

/-- What starting work does. -/
structure StartsWork (t t' : TCPTransport) : Prop where
  open_ : t.state = .open_
  eq : t' = { t with
    workDone := if t.workCount = 0 then t.channels else t.workDone
    channels := if t.workCount = 0 then t.channels + 1 else t.channels
    workCount := t.workCount + 1
    shutdownTrackedGoroutines := t.shutdownTrackedGoroutines + 1 }

/-- What registering a peer has checked and done. -/
structure Registers (t : TCPTransport) (tp : TCPPeer) (t' : TCPTransport) : Prop where
  absent : tp.remoteAddr ∉ t.peers
  room : ¬ (t.maxPeers > 0 ∧ t.peers.size ≥ t.maxPeers)
  eq : ∃ t₁, StartsWork t t₁ ∧ t' = { t₁ with
    peers := t₁.peers.insert tp.remoteAddr tp
    activePeers := t₁.activePeers + 1
    shutdownTrackedPeers := t₁.shutdownTrackedPeers + 1 }.note tp .registered

/-- Only the lifecycle state, the listener and the closed connections may differ. -/
structure SameBooks (t t' : TCPTransport) : Prop where
  maxPeers : t'.maxPeers = t.maxPeers
  peers : t'.peers = t.peers
  connections : t'.connections = t.connections
  workCount : t'.workCount = t.workCount
  workDone : t'.workDone = t.workDone
  channels : t'.channels = t.channels
  closes : t'.closes = t.closes
  activePeers : t'.activePeers = t.activePeers
  shutdownTrackedPeers : t'.shutdownTrackedPeers = t.shutdownTrackedPeers
  shutdownTrackedGoroutines : t'.shutdownTrackedGoroutines = t.shutdownTrackedGoroutines
  opened : t'.opened = t.opened
  log : t'.log = t.log
  closed : t.closed ⊆ t'.closed

/-- What one step does. -/
inductive Performs (t : TCPTransport) : Thread → TCPTransport → List Thread → Prop
  | skip {th ts} (steady : Steady th ts none) : Performs t th t ts
  | listen {t₁} (h : StartsWork t t₁) :
      Performs t .listening { t₁ with listener := true, bound := true } [.accepting]
  | begin {t' addr} (h : StartsWork t t') :
      Performs t (.handler (.beginning addr)) t' [.handler (.dialing addr)]
  | accept (remoteAddr : String) :
      Performs t .blocked (t.openConn remoteAddr false "").2
        [.accepted (t.openConn remoteAddr false "").1]
  | dial (remoteAddr addr : String) (h : addr ≠ "") :
      Performs t (.handler (.dialing addr)) (t.openConn remoteAddr true addr).2
        [.handler (.opened (t.openConn remoteAddr true addr).1)]
  | admitted {t₁ tp} (h : StartsWork t t₁) :
      Performs t (.accepted tp) { t₁ with connections := t₁.connections.insert tp }
        [.accepting, .handler (.handshaking tp)]
  | track (tp : TCPPeer) :
      Performs t (.handler (.opened tp)) { t with connections := t.connections.insert tp }
        [.handler (.handshaking tp)]
  | close {th ts} (tp : TCPPeer) (steady : Steady th ts (some tp)) :
      Performs t th (t.closeConn tp) ts
  | register {t' tp} (h : Registers t tp t') :
      Performs t (.handler (.registering tp)) t' [.handler (.announcing tp)]
  | note {th u} (tp : TCPPeer) (event : PeerEvent) (notes : Notes th tp event u) :
      Performs t th (t.note tp event) [u]
  | unregister (tp : TCPPeer) :
      Performs t (.serve (.ended tp)) (t.unregister tp) [.serve (.unlisted tp)]
  | leave (tp : TCPPeer) (result : Option DialError) :
      Performs t (.handler (.leaving tp result)) (t.removeConnection tp)
        [.handler (.finishing result)]
  | unlist (tp : TCPPeer) :
      Performs t (.serve (.unlisted tp)) (t.removeConnection tp) [.serve (.notifying tp)]
  | exit : Performs t .exiting t.finishWork []
  | finish (result : Option DialError) :
      Performs t (.handler (.finishing result)) t.finishWork [.handler (.returned result)]
  | served (tp : TCPPeer) : Performs t (.serve (.notified tp)) t.finishWork [.serve .gone]
  | shutdown {t'} (s s' : Stop) (same : SameBooks t t') : Performs t (.stop s) t' [.stop s']

theorem TCPTransport.finishWork_peers (t : TCPTransport) : t.finishWork.peers = t.peers := by
  unfold finishWork
  split <;> rfl

theorem TCPTransport.finishWork_opened (t : TCPTransport) :
    t.finishWork.opened = t.opened := by
  unfold finishWork
  split <;> rfl

theorem TCPTransport.unregister_opened (t : TCPTransport) (tp : TCPPeer) :
    (t.unregister tp).opened = t.opened := by
  unfold unregister
  split <;> rfl

variable {t t' : TCPTransport} {tp : TCPPeer}

/-- A connection that is refused leaves the transport as it is. -/
theorem TCPTransport.register_refused {result : Registration} (h : t.register tp = (result, t'))
    (hresult : result ≠ .registered) : t' = t := by
  unfold register at h
  split at h
  · cases h
    rfl
  split at h
  · cases h
    rfl
  split at h
  · cases h
    rfl
  split at h
  · cases h
    rfl
  · cases h
    exact absurd rfl hresult

theorem TCPTransport.startWorkLocked_some (h : t.startWorkLocked = some t') : StartsWork t t' := by
  unfold startWorkLocked at h
  by_cases hopen : t.state = .open_
  · rw [if_neg (not_not.mpr hopen)] at h
    cases h
    exact ⟨hopen, rfl⟩
  · rw [if_pos hopen] at h
    cases h

theorem TCPTransport.listen_some (h : t.listen = some t') :
    ∃ t₁, StartsWork t t₁ ∧ t' = { t₁ with listener := true, bound := true } := by
  unfold listen at h
  by_cases hlistener : t.listener = true
  · simp [hlistener] at h
  · simp only [hlistener] at h
    obtain ⟨t₁, hstart, heq⟩ := Option.bind_eq_some_iff.mp h
    exact ⟨t₁, startWorkLocked_some hstart, (Option.some.inj heq).symm⟩

theorem TCPTransport.admitted_some (h : t.admitted tp = some t') :
    ∃ t₁, StartsWork t t₁ ∧ t' = { t₁ with connections := t₁.connections.insert tp } := by
  obtain ⟨t₁, hstart, heq⟩ := Option.bind_eq_some_iff.mp h
  exact ⟨t₁, startWorkLocked_some hstart, (Option.some.inj heq).symm⟩

theorem TCPTransport.trackConnection_some (h : t.trackConnection tp = some t') :
    t' = { t with connections := t.connections.insert tp } := by
  unfold trackConnection at h
  by_cases hopen : t.state = .open_
  · rw [if_neg (not_not.mpr hopen)] at h
    exact (Option.some.inj h).symm
  · rw [if_pos hopen] at h
    cases h

theorem TCPTransport.register_registered (h : t.register tp = (.registered, t')) :
    Registers t tp t' := by
  unfold register at h
  by_cases hopen : t.state = .open_
  swap
  · rw [if_pos hopen] at h
    cases h
  rw [if_neg (not_not.mpr hopen)] at h
  by_cases hdup : tp.remoteAddr ∈ t.peers
  · rw [if_pos hdup] at h
    cases h
  rw [if_neg hdup] at h
  by_cases hfull : t.maxPeers > 0 ∧ t.peers.size ≥ t.maxPeers
  · rw [if_pos hfull] at h
    cases h
  rw [if_neg hfull] at h
  cases hstart : t.startWorkLocked with
  | none =>
    rw [hstart] at h
    cases h
  | some t₁ =>
    rw [hstart] at h
    cases h
    exact ⟨hdup, hfull, t₁, startWorkLocked_some hstart, rfl⟩

theorem SameBooks.refl (t : TCPTransport) : SameBooks t t :=
  ⟨rfl, rfl, rfl, rfl, rfl, rfl, rfl, rfl, rfl, rfl, rfl, rfl, List.Subset.refl _⟩

namespace Stop

variable {choice : Choice} {s s' : Stop}

theorem closeNext_some {left : List TCPPeer} {again : List TCPPeer → Stop} {done : Stop}
    (h : closeNext choice t left again done = some (t', s')) :
    (left = [] ∧ t' = t ∧ s' = done) ∨
      ∃ tp ∈ left, t' = t.closeConn tp ∧ s' = again (left.erase tp) := by
  unfold closeNext at h
  split at h
  · cases h
    exact .inl ⟨rfl, rfl, rfl⟩
  · split at h
    · cases h
      exact .inr ⟨_, ‹_›, rfl, rfl⟩
    · cases h
  · cases h

theorem wait_some {done : Nat} {joined late : Stop}
    (h : wait choice t done joined late = some (t', s')) :
    t' = t ∧ ((done ∈ t.closes ∧ s' = joined) ∨ s' = late) := by
  unfold wait at h
  split at h
  · split at h
    · cases h
      exact ⟨rfl, .inl ⟨‹_›, rfl⟩⟩
    · cases h
  · cases h
    exact ⟨rfl, .inr rfl⟩
  · cases h

theorem next_sameBooks (h : s.next choice t = some (t', s')) : SameBooks t t' := by
  have hclose : ∀ tp, SameBooks t (t.closeConn tp) :=
    fun _ => ⟨rfl, rfl, rfl, rfl, rfl, rfl, rfl, rfl, rfl, rfl, rfl, rfl,
      fun _ => List.mem_insert_of_mem⟩
  cases s with
  | entering hard =>
    simp only [Stop.next] at h
    split at h
    · cases h
      exact ⟨rfl, rfl, rfl, rfl, rfl, rfl, rfl, rfl, rfl, rfl, rfl, rfl, List.Subset.refl _⟩
    · split at h
      · cases h
        exact .refl t
      · cases h
  | closing hard left | forcing left =>
    rcases closeNext_some h with ⟨_, rfl, _⟩ | ⟨tp, _, rfl, _⟩
    · exact .refl _
    · exact hclose tp
  | waiting done | joining done =>
    rw [(wait_some h).1]
    exact .refl t
  | begun hard pending active | drained | completing | leaving =>
    cases h
    exact ⟨rfl, rfl, rfl, rfl, rfl, rfl, rfl, rfl, rfl, rfl, rfl, rfl, List.Subset.refl _⟩
  | awaiting | expired | rejoining =>
    cases h
    exact .refl t
  | returned => cases h

end Stop

section Steps

variable {choice : Choice} {ts : List Thread}

theorem Handler.next_performs {h h' : Handler} {serves : List Serve}
    (hnext : h.next choice t = some (t', h', serves)) :
    Performs t (.handler h) t' (.handler h' :: serves.map .serve) := by
  cases h with
  | beginning addr =>
    simp only [Handler.next] at hnext
    split at hnext
    · next hstart =>
      cases hnext
      exact .begin (TCPTransport.startWorkLocked_some hstart)
    · cases hnext
      exact .skip (.goesOn rfl rfl rfl rfl rfl rfl rfl)
  | dialing addr =>
    simp only [Handler.next] at hnext
    cases choice with
    | connect remoteAddr =>
      by_cases haddr : addr = ""
      · simp [haddr] at hnext
      · simp only [haddr, if_false] at hnext
        cases hnext
        exact .dial remoteAddr addr haddr
    | fail =>
      cases hnext
      exact .skip (.goesOn rfl rfl rfl rfl rfl rfl rfl)
    | proceed | peer tp => cases hnext
  | opened tp =>
    simp only [Handler.next] at hnext
    split at hnext
    · next htrack =>
      cases hnext
      rw [TCPTransport.trackConnection_some htrack]
      exact .track tp
    · cases hnext
      exact .skip (.goesOn rfl rfl rfl rfl rfl rfl rfl)
  | untracked tp =>
    cases hnext
    exact .close tp (.letsGo rfl rfl rfl rfl rfl rfl rfl)
  | handshaking tp =>
    simp only [Handler.next] at hnext
    cases choice with
    | proceed | fail =>
      cases hnext
      exact .skip (.goesOn rfl rfl rfl rfl rfl rfl rfl)
    | connect remoteAddr | peer tp => cases hnext
  | failed tp | refused tp | late tp =>
    cases hnext
    exact .close tp (.goesOn rfl rfl rfl rfl rfl rfl rfl)
  | registering tp =>
    simp only [Handler.next] at hnext
    cases hregister : t.register tp with
    | mk registration t₁ =>
    rw [hregister] at hnext
    cases registration with
    | registered =>
      cases hnext
      exact .register (TCPTransport.register_registered hregister)
    | transportClosed | duplicate | full =>
      cases hnext
      obtain rfl := TCPTransport.register_refused hregister nofun
      exact .skip (.goesOn rfl rfl rfl rfl rfl rfl rfl)
  | announcing tp =>
    cases hnext
    exact .note tp .onPeer ⟨.single rfl (.inl rfl) rfl rfl, rfl, rfl, rfl, rfl, rfl, rfl⟩
  | starting tp =>
    cases hnext
    exact .skip
      { units := rfl
        peer := by simp [mark]
        tracked := by simp [mark]
        registered := by simp [mark]
        keeps := by simp
        drops := by simp
        custody := by simp
        leaves := by simp }
  | leaving tp result =>
    cases hnext
    exact .leave tp result
  | finishing result =>
    cases hnext
    exact .finish result
  | returned result => cases hnext

theorem Serve.next_performs {s s' : Serve} (hnext : s.next t = some (t', s')) :
    Performs t (.serve s) t' [.serve s'] := by
  cases s with
  | serving tp =>
    cases hnext
    exact .note tp .served ⟨.single rfl (.inl rfl) rfl rfl, rfl, rfl, rfl, rfl, rfl, rfl⟩
  | ended tp =>
    cases hnext
    exact .unregister tp
  | unlisted tp =>
    cases hnext
    exact .unlist tp
  | notifying tp =>
    cases hnext
    exact .note tp .onPeerDisconnected
      ⟨.single rfl (.inl rfl) rfl rfl, rfl, rfl, rfl, rfl, rfl, rfl⟩
  | notified tp =>
    cases hnext
    exact .served tp
  | gone => cases hnext

/-- What one step of a goroutine does. -/
theorem Thread.next_performs {th : Thread} (hnext : th.next choice t = some (t', ts)) :
    Performs t th t' ts := by
  cases th with
  | listening =>
    simp only [Thread.next] at hnext
    split at hnext
    · next hlisten =>
      cases hnext
      obtain ⟨t₁, hstart, rfl⟩ := TCPTransport.listen_some hlisten
      exact .listen hstart
    · cases hnext
      exact .skip ⟨⟨⟨by simp, by simp [mark], by simp [mark]⟩, rfl⟩, by simp, by simp,
        by simp, by simp⟩
  | accepting =>
    simp only [Thread.next] at hnext
    split at hnext
    all_goals
      cases hnext
      exact .skip (.goesOn rfl rfl rfl rfl rfl rfl rfl)
  | blocked =>
    simp only [Thread.next] at hnext
    cases choice with
    | connect remoteAddr =>
      by_cases hbound : t.bound = true
      · simp only [hbound, if_true] at hnext
        cases hnext
        exact .accept remoteAddr
      · simp [hbound] at hnext
    | fail =>
      cases hnext
      exact .skip (.goesOn rfl rfl rfl rfl rfl rfl rfl)
    | proceed | peer tp => cases hnext
  | accepted tp =>
    simp only [Thread.next] at hnext
    split at hnext
    · next hadmitted =>
      cases hnext
      obtain ⟨t₁, hstart, rfl⟩ := TCPTransport.admitted_some hadmitted
      exact .admitted hstart
    · cases hnext
      exact .skip (.goesOn rfl rfl rfl rfl rfl rfl rfl)
  | rejecting tp =>
    cases hnext
    exact .close tp (.letsGo rfl rfl rfl rfl rfl rfl rfl)
  | exiting =>
    cases hnext
    exact .exit
  | handler h =>
    obtain ⟨⟨t₁, h', serves⟩, hh, heq⟩ := Option.map_eq_some_iff.mp hnext
    cases heq
    exact Handler.next_performs hh
  | serve s =>
    obtain ⟨⟨t₁, s'⟩, hs, heq⟩ := Option.map_eq_some_iff.mp hnext
    cases heq
    exact Serve.next_performs hs
  | stop s =>
    obtain ⟨⟨t₁, s'⟩, hs, heq⟩ := Option.map_eq_some_iff.mp hnext
    cases heq
    exact .shutdown s s' (Stop.next_sameBooks hs)

end Steps

section Effects

variable {th : Thread} {ts : List Thread}

/-- Only a registration and its end change which peers are registered. -/
theorem Performs.peers_cases (h : Performs t th t' ts) :
    t'.peers = t.peers ∨ (∃ tp, Registers t tp t') ∨
      ∃ tp, th = .serve (.ended tp) ∧ t' = t.unregister tp ∧ ts = [.serve (.unlisted tp)] := by
  cases h with
  | listen hstart | begin hstart | admitted hstart =>
    rw [hstart.eq]
    exact .inl rfl
  | register hregisters => exact .inr (.inl ⟨_, hregisters⟩)
  | unregister tp => exact .inr (.inr ⟨tp, rfl, rfl, rfl⟩)
  | exit | finish result | served tp => exact .inl t.finishWork_peers
  | shutdown s s' same => exact .inl same.peers
  | _ => exact .inl rfl

/-- Only accepting and dialing opens a connection. -/
theorem Performs.opened_cases (h : Performs t th t' ts) :
    t'.opened = t.opened ∨ ∃ tp, t'.opened = t.opened ++ [tp] ∧
      (tp.outbound = true → tp.dialTarget ≠ "") := by
  cases h with
  | accept remoteAddr => exact .inr ⟨_, rfl, nofun⟩
  | dial remoteAddr addr haddr => exact .inr ⟨_, rfl, fun _ => haddr⟩
  | listen hstart | begin hstart | admitted hstart =>
    rw [hstart.eq]
    exact .inl rfl
  | register hregisters =>
    obtain ⟨t₁, hstart, heq⟩ := hregisters.eq
    rw [heq, hstart.eq]
    exact .inl rfl
  | unregister tp => exact .inl (t.unregister_opened tp)
  | exit | finish result | served tp => exact .inl t.finishWork_opened
  | shutdown s s' same => exact .inl same.opened
  | _ => exact .inl rfl

end Effects

/-! ## The accounts are right -/

/-- One when the peer is registered. -/
def TCPTransport.listed (t : TCPTransport) (tp : TCPPeer) : Nat :=
  if t.peers[tp.remoteAddr]? = some tp then 1 else 0

/-- The transport's counter, sets and maps are what the goroutines account for. -/
structure Accounted (t : TCPTransport) (threads : List Thread) : Prop where
  work : t.workCount = total Thread.units threads
  held : ∀ tp, total (mark Thread.peer? tp) threads ≤ t.opened.count tp
  tracked : ∀ tp, t.connections.count tp = total (mark Thread.tracked? tp) threads
  registered : ∀ tp, t.listed tp = total (mark Thread.registered? tp) threads
  distinct : t.opened.Nodup
  numbered : ∀ tp ∈ t.opened, tp.id < t.opened.length
  keyed : ∀ (key : String) (tp : TCPPeer), t.peers[key]? = some tp → tp.remoteAddr = key

namespace Accounted

variable {th : Thread} {before after ts threads : List Thread}

theorem new (maxPeers : Int) : Accounted (.new maxPeers) [] where
  work := rfl
  held := by simp
  tracked := by simp [TCPTransport.new]
  registered := by simp [TCPTransport.listed, TCPTransport.new]
  distinct := List.nodup_nil
  numbered := by simp [TCPTransport.new]
  keyed := by simp [TCPTransport.new]

/-- A goroutine that accounts for nothing makes no difference. -/
theorem insert (h : Accounted t (before ++ after)) (hunits : th.units = 0)
    (hpeer : th.peer? = none) : Accounted t (before ++ th :: after) := by
  have hmark : ∀ tp, mark Thread.peer? tp th = 0 := mark_none hpeer
  have htracked : ∀ tp, mark Thread.tracked? tp th = 0 := by
    intro tp
    have := mark_tracked_le tp th
    have := hmark tp
    omega
  have hregistered : ∀ tp, mark Thread.registered? tp th = 0 := by
    intro tp
    have := mark_registered_le tp th
    have := htracked tp
    omega
  exact
    { work := by
        rw [h.work, total_append, total_append, total_cons, hunits, Nat.zero_add]
      held := by simpa [hmark] using h.held
      tracked := by simpa [htracked] using h.tracked
      registered := by simpa [hregistered] using h.registered
      distinct := h.distinct
      numbered := h.numbered
      keyed := h.keyed }

theorem start (h : Accounted t threads) (hunits : th.units = 0) (hpeer : th.peer? = none) :
    Accounted t (threads ++ [th]) := by
  rw [← List.append_nil threads] at h
  exact h.insert hunits hpeer

/-- At most one goroutine has a connection at hand. -/
theorem held_le_one (h : Accounted t threads) (tp : TCPPeer) :
    total (mark Thread.peer? tp) threads ≤ 1 :=
  (h.held tp).trans (List.nodup_iff_count_le_one.mp h.distinct tp)

section Replace

variable (h : Accounted t (before ++ th :: after))
include h

/-- A connection at hand that is not tracked by its goroutine is not tracked. -/
theorem not_tracked (hpeer : th.peer? = some tp)
    (htracked : th.tracked? = none) : tp ∉ t.connections := by
  have hone := h.held_le_one tp
  have hcount := h.tracked tp
  have hbefore := total_mono (mark_tracked_le tp) before
  have hafter := total_mono (mark_tracked_le tp) after
  have hth : mark Thread.peer? tp th = 1 := mark_self hpeer
  have hth' : mark Thread.tracked? tp th = 0 := mark_none htracked tp
  simp only [total_append, total_cons] at hone hcount
  rw [← List.count_eq_zero]
  omega

/-- Replace a goroutine, given what the step does to each account. -/
theorem replace (work : t'.workCount + th.units = t.workCount + total Thread.units ts)
    (held : ∀ tp, total (mark Thread.peer? tp) ts + t.opened.count tp ≤
      mark Thread.peer? tp th + t'.opened.count tp)
    (tracked : ∀ tp, t'.connections.count tp + mark Thread.tracked? tp th =
      t.connections.count tp + total (mark Thread.tracked? tp) ts)
    (registered : ∀ tp, t'.listed tp + mark Thread.registered? tp th =
      t.listed tp + total (mark Thread.registered? tp) ts)
    (distinct : t'.opened.Nodup) (numbered : ∀ tp ∈ t'.opened, tp.id < t'.opened.length)
    (keyed : ∀ (key : String) (tp : TCPPeer), t'.peers[key]? = some tp →
      tp.remoteAddr = key) :
    Accounted t' (before ++ ts ++ after) where
  work := by
    have hsum := @total_replace _ Thread.units before after ts th
    have hwork := h.work
    omega
  held := by
    intro tp
    have hsum := @total_replace _ (mark Thread.peer? tp) before after ts th
    have hheld := h.held tp
    have hstep := held tp
    omega
  tracked := by
    intro tp
    have hsum := @total_replace _ (mark Thread.tracked? tp) before after ts th
    have htracked := h.tracked tp
    have hstep := tracked tp
    omega
  registered := by
    intro tp
    have hsum := @total_replace _ (mark Thread.registered? tp) before after ts th
    have hregistered := h.registered tp
    have hstep := registered tp
    omega
  distinct := distinct
  numbered := numbered
  keyed := keyed

/-- A step that changes none of the accounts. -/
theorem quiet (hquiet : Quiet th ts)
    (hwork : t'.workCount = t.workCount) (hopened : t'.opened = t.opened)
    (hconnections : t'.connections = t.connections) (hpeers : t'.peers = t.peers) :
    Accounted t' (before ++ ts ++ after) := by
  have hlisted : ∀ tp, t'.listed tp = t.listed tp := by
    intro tp
    unfold TCPTransport.listed
    rw [hpeers]
  refine h.replace ?_ ?_ ?_ ?_ ?_ ?_ ?_
  · rw [hwork, hquiet.units]
  · intro tp
    have hpeer := hquiet.peer tp
    rw [hopened]
    omega
  · intro tp
    rw [hconnections, hquiet.tracked]
  · intro tp
    rw [hlisted, hquiet.registered]
  · rw [hopened]
    exact h.distinct
  · rw [hopened]
    exact h.numbered
  · rw [hpeers]
    exact h.keyed

theorem units_le : th.units ≤ t.workCount := by
  rw [h.work]
  exact le_total (by simp)

/-- A step that finishes a unit of work. -/
theorem finish (hunits : total Thread.units ts + 1 = th.units) (hfollows : Follows th ts) :
    Accounted t.finishWork (before ++ ts ++ after) := by
  have hle := h.units_le
  have hpos : t.workCount ≠ 0 := by omega
  unfold TCPTransport.finishWork
  rw [if_neg hpos]
  refine h.replace ?_ ?_ ?_ ?_ h.distinct h.numbered h.keyed
  · change t.workCount - 1 + th.units = _
    omega
  · intro tp
    have := hfollows.peer tp
    change _ + t.opened.count tp ≤ _ + t.opened.count tp
    omega
  · intro tp
    rw [hfollows.tracked tp]
  · intro tp
    rw [hfollows.registered tp]
    rfl

/-- A step that removes the connection of its goroutine. -/
theorem remove (hth : th.tracked? = some tp) (hunits : total Thread.units ts = th.units)
    (hpeer : ∀ tp, total (mark Thread.peer? tp) ts ≤ mark Thread.peer? tp th)
    (htracked : ∀ tp, total (mark Thread.tracked? tp) ts = 0)
    (hregistered : ∀ tp,
      total (mark Thread.registered? tp) ts = mark Thread.registered? tp th) :
    Accounted (t.removeConnection tp) (before ++ ts ++ after) := by
  have hmem : 1 ≤ t.connections.count tp := by
    rw [h.tracked tp, ← mark_self hth]
    exact le_total (by simp)
  refine h.replace ?_ ?_ ?_ ?_ h.distinct h.numbered h.keyed
  · rw [hunits]
    rfl
  · intro tp'
    have := hpeer tp'
    change _ + t.opened.count tp' ≤ _ + t.opened.count tp'
    omega
  · intro tp'
    rw [htracked tp']
    change (t.connections.erase tp).count tp' + mark Thread.tracked? tp' th = _
    by_cases htp : tp' = tp
    · subst htp
      rw [List.count_erase_self, mark_self hth]
      omega
    · have hmark : mark Thread.tracked? tp' th = 0 := by
        unfold mark
        rw [hth, if_neg (by simpa using Ne.symm htp)]
      rw [List.count_erase_of_ne htp, hmark]
  · intro tp'
    rw [hregistered tp']
    rfl

/-- A step that opens a connection. -/
theorem opens {th' : Thread} (remoteAddr : String) (outbound : Bool) (dialTarget : String)
    (hth' : th'.peer? = some (t.openConn remoteAddr outbound dialTarget).1)
    (hunits : th'.units = th.units) (hpeer : th.peer? = none) (htracked : th'.tracked? = none)
    (hregistered : th'.registered? = none) :
    Accounted (t.openConn remoteAddr outbound dialTarget).2 (before ++ [th'] ++ after) := by
  have hfresh : (t.openConn remoteAddr outbound dialTarget).1 ∉ t.opened := by
    intro hmem
    have hlt := h.numbered _ hmem
    exact lt_irrefl _ hlt
  have htracked₀ : ∀ tp, mark Thread.tracked? tp th = 0 := by
    intro tp
    have := mark_tracked_le tp th
    have := mark_none hpeer tp
    omega
  have hregistered₀ : ∀ tp, mark Thread.registered? tp th = 0 := by
    intro tp
    have := mark_registered_le tp th
    have := htracked₀ tp
    omega
  refine h.replace ?_ ?_ ?_ ?_ ?_ ?_ h.keyed
  · rw [total_cons, hunits]
    rfl
  · intro tp
    change _ ≤ _ + (t.opened ++ [(t.openConn remoteAddr outbound dialTarget).1]).count tp
    rw [total_cons, total_nil, mark_none hpeer, List.count_append, List.count_singleton]
    unfold mark
    rw [hth']
    simp only [Option.some.injEq, beq_iff_eq]
    omega
  · intro tp
    rw [total_cons, total_nil, htracked₀ tp, mark_none htracked]
    rfl
  · intro tp
    rw [total_cons, total_nil, hregistered₀ tp, mark_none hregistered]
    rfl
  · exact List.nodup_append.mpr ⟨h.distinct, by simp, by
      intro a ha b hb hab
      rw [hab, List.mem_singleton.mp hb] at ha
      exact hfresh ha⟩
  · intro tp htp
    change tp.id < (t.opened ++ [_]).length
    rw [List.length_append, List.length_singleton]
    rcases List.mem_append.mp htp with hold | hnew
    · have := h.numbered tp hold
      omega
    · rw [List.mem_singleton.mp hnew]
      exact Nat.lt_succ_self _

/-- A step that starts a unit of work. -/
theorem begins {t₁ : TCPTransport}
    (hstart : StartsWork t t₁) (hunits : total Thread.units ts = th.units + 1)
    (hfollows : Follows th ts) :
    Accounted t₁ (before ++ ts ++ after) := by
  rw [hstart.eq]
  refine h.replace ?_ ?_ ?_ ?_ h.distinct h.numbered h.keyed
  · change t.workCount + 1 + th.units = _
    omega
  · intro tp
    have := hfollows.peer tp
    change _ + t.opened.count tp ≤ _ + t.opened.count tp
    omega
  · intro tp
    rw [hfollows.tracked tp]
  · intro tp
    rw [hfollows.registered tp]
    rfl

/-- A step that tracks a connection that was at hand. -/
theorem tracks (hth : th.peer? = some tp)
    (hnone : th.tracked? = none) (hunits : total Thread.units ts = th.units)
    (hpeer : ∀ tp, total (mark Thread.peer? tp) ts ≤ mark Thread.peer? tp th)
    (htracked : ∀ tp', total (mark Thread.tracked? tp') ts = if tp = tp' then 1 else 0)
    (hregistered : ∀ tp, total (mark Thread.registered? tp) ts = 0) :
    Accounted { t with connections := t.connections.insert tp } (before ++ ts ++ after) := by
  have hnot := h.not_tracked hth hnone
  refine h.replace ?_ ?_ ?_ ?_ h.distinct h.numbered h.keyed
  · rw [hunits]
  · intro tp'
    have := hpeer tp'
    change _ + t.opened.count tp' ≤ _ + t.opened.count tp'
    omega
  · intro tp'
    rw [htracked tp', mark_none hnone]
    change (t.connections.insert tp).count tp' + 0 = _
    rw [List.insert_of_not_mem hnot, List.count_cons]
    simp only [beq_iff_eq]
    omega
  · intro tp'
    have hle := mark_registered_le tp' th
    rw [mark_none hnone] at hle
    rw [hregistered tp', Nat.le_zero.mp hle]
    rfl

end Replace

/-- The peer of a goroutine that will unregister it is registered. -/
theorem listed_of_registered (h : Accounted t threads) (hth : th ∈ threads)
    (hregistered : th.registered? = some tp) : t.peers[tp.remoteAddr]? = some tp := by
  have hle : 1 ≤ t.listed tp := by
    rw [h.registered tp, ← mark_self hregistered]
    exact le_total hth
  unfold TCPTransport.listed at hle
  by_contra hno
  rw [if_neg hno] at hle
  omega

/-- A step that registers the peer of its goroutine. -/
theorem registers (h : Accounted t (before ++ .handler (.registering tp) :: after))
    (hregisters : Registers t tp t') :
    Accounted t' (before ++ [.handler (.announcing tp)] ++ after) := by
  obtain ⟨t₁, hstart, heq⟩ := hregisters.eq
  have habsent : t.peers[tp.remoteAddr]? = none :=
    Std.ExtTreeMap.getElem?_eq_none hregisters.absent
  subst heq
  rw [hstart.eq]
  refine h.replace ?_ ?_ ?_ ?_ h.distinct h.numbered ?_
  · change t.workCount + 1 + 1 = _
    simp
  · intro tp'
    change _ + t.opened.count tp' ≤ _ + t.opened.count tp'
    simp [mark]
  · intro tp'
    change t.connections.count tp' + _ = _
    simp [mark]
  · intro tp'
    have hmark : mark Thread.registered? tp' (.handler (.registering tp)) = 0 := rfl
    rw [hmark, total_cons, total_nil]
    unfold TCPTransport.listed mark
    change (if (t.peers.insert tp.remoteAddr tp)[tp'.remoteAddr]? = some tp' then 1 else 0) +
      0 = (if t.peers[tp'.remoteAddr]? = some tp' then 1 else 0) +
        ((if some tp = some tp' then 1 else 0) + 0)
    simp only [Std.ExtTreeMap.getElem?_insert, Std.LawfulEqCmp.compare_eq_iff_eq]
    by_cases hkey : tp.remoteAddr = tp'.remoteAddr
    · rw [if_pos hkey, ← hkey, habsent]
      simp
    · have hne : tp ≠ tp' := fun heq => hkey (congrArg _ heq)
      have hnot : ¬ (some tp = some tp') := by simpa using hne
      rw [if_neg hkey, if_neg hnot]
  · intro key tp' hget
    change (t.peers.insert tp.remoteAddr tp)[key]? = some tp' at hget
    simp only [Std.ExtTreeMap.getElem?_insert, Std.LawfulEqCmp.compare_eq_iff_eq] at hget
    by_cases hkey : tp.remoteAddr = key
    · rw [if_pos hkey] at hget
      cases hget
      exact hkey
    · rw [if_neg hkey] at hget
      exact h.keyed key tp' hget

/-- A step that unregisters the peer of its serve loop. -/
theorem unregisters (h : Accounted t (before ++ .serve (.ended tp) :: after)) :
    Accounted (t.unregister tp) (before ++ [.serve (.unlisted tp)] ++ after) := by
  have hth : Thread.serve (.ended tp) ∈ before ++ .serve (.ended tp) :: after := by simp
  have hlisted : t.peers[tp.remoteAddr]? = some tp := h.listed_of_registered hth rfl
  have hmem : tp.remoteAddr ∈ t.peers := Std.ExtTreeMap.mem_iff_isSome_getElem?.mpr (by
    rw [hlisted]
    rfl)
  unfold TCPTransport.unregister
  rw [if_pos hmem]
  refine h.replace ?_ ?_ ?_ ?_ h.distinct h.numbered ?_
  · simp
  · intro tp'
    change _ + t.opened.count tp' ≤ _ + t.opened.count tp'
    simp [mark]
  · intro tp'
    change t.connections.count tp' + _ = _
    simp [mark]
  · intro tp'
    have hmark : total (mark Thread.registered? tp') [.serve (.unlisted tp)] = 0 := rfl
    rw [hmark]
    unfold TCPTransport.listed mark
    change (if (t.peers.erase tp.remoteAddr)[tp'.remoteAddr]? = some tp' then 1 else 0) +
      (if some tp = some tp' then 1 else 0) =
        (if t.peers[tp'.remoteAddr]? = some tp' then 1 else 0) + 0
    simp only [Std.ExtTreeMap.getElem?_erase, Std.LawfulEqCmp.compare_eq_iff_eq]
    by_cases hkey : tp.remoteAddr = tp'.remoteAddr
    · rw [if_pos hkey, ← hkey, hlisted]
      simp
    · have hne : tp ≠ tp' := fun heq => hkey (congrArg _ heq)
      have hnot : ¬ (some tp = some tp') := by simpa using hne
      rw [if_neg hkey, if_neg hnot]
  · intro key tp' hget
    change (t.peers.erase tp.remoteAddr)[key]? = some tp' at hget
    simp only [Std.ExtTreeMap.getElem?_erase, Std.LawfulEqCmp.compare_eq_iff_eq] at hget
    by_cases hkey : tp.remoteAddr = key
    · rw [if_pos hkey] at hget
      cases hget
    · rw [if_neg hkey] at hget
      exact h.keyed key tp' hget

/-- The accounts stay right, whatever a goroutine does. -/
theorem step (h : Accounted t (before ++ th :: after)) (hperforms : Performs t th t' ts) :
    Accounted t' (before ++ ts ++ after) := by
  cases hperforms with
  | skip steady | close tp steady => exact h.quiet steady.toQuiet rfl rfl rfl rfl
  | @listen t₁ hstart =>
    have hbegun : Accounted t₁ (before ++ [.accepting] ++ after) :=
      h.begins hstart (by simp) ⟨by simp [mark], by simp [mark], by simp [mark]⟩
    exact ⟨hbegun.work, hbegun.held, hbegun.tracked, hbegun.registered, hbegun.distinct,
      hbegun.numbered, hbegun.keyed⟩
  | begin hstart =>
    exact h.begins hstart (by simp) ⟨by simp [mark], by simp [mark], by simp [mark]⟩
  | accept remoteAddr => exact h.opens remoteAddr false "" rfl rfl rfl rfl rfl
  | dial remoteAddr addr haddr => exact h.opens remoteAddr true addr rfl rfl rfl rfl rfl
  | @admitted t₁ tp hstart =>
    -- As if the connection had been at hand with its work started, then tracked.
    have hbegun : Accounted t₁ (before ++ [.accepting, .handler (.opened tp)] ++ after) :=
      h.begins hstart (by simp) ⟨by simp [mark], by simp [mark], by simp [mark]⟩
    have hsplit : before ++ [.accepting, .handler (.opened tp)] ++ after =
        (before ++ [.accepting]) ++ .handler (.opened tp) :: after := by simp
    rw [hsplit] at hbegun
    have htracked : Accounted { t₁ with connections := t₁.connections.insert tp }
        (before ++ [.accepting] ++ [.handler (.handshaking tp)] ++ after) :=
      hbegun.tracks rfl rfl rfl (by simp [mark]) (by simp [mark]) (by simp [mark])
    simpa using htracked
  | track tp =>
    exact h.tracks rfl rfl rfl (by simp [mark]) (by simp [mark]) (by simp [mark])
  | register hregisters => exact h.registers hregisters
  | note tp event notes => exact h.quiet notes.toQuiet rfl rfl rfl rfl
  | unregister tp => exact h.unregisters
  | leave tp result | unlist tp =>
    exact h.remove rfl rfl (by simp [mark]) (by simp [mark]) (by simp [mark])
  | exit | finish result | served tp =>
    exact h.finish rfl ⟨by simp [mark], by simp [mark], by simp [mark]⟩
  | shutdown s s' same =>
    exact h.quiet ⟨⟨by simp [mark], by simp [mark], by simp [mark]⟩, rfl⟩ same.workCount
      same.opened same.connections same.peers

end Accounted

end StreamHive.Transport
