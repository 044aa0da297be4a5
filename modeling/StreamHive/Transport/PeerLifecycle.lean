import StreamHive.Transport.Accounts

/-!
# The lifecycle of the transport and its peers

What holds of the transport in every interleaving of its goroutines: how its state
moves, what the gauges, the counter and the done channel say, what happens to each peer
and in which order, and what `Drain` may rely on when its wait ends in time.

## Main results

* `Books.step`, `Shutdown.step`, `Chronicle.step` — what every step keeps;
* `transport_lifecycle` — what holds after any actions.
-/

namespace StreamHive.Transport

open Verified Threads

variable {tp : TCPPeer} {th : Thread} {t t' : TCPTransport}

/-! ## Gauges and the done channel -/

/-- The gauges show the registered peers, which are within the limit; the done channel
is closed when there is no work, and no channel is closed twice. -/
structure Books (maxPeers : Int) (t : TCPTransport) : Prop where
  fixed : t.maxPeers = maxPeers
  idle : t.workDone ∈ t.closes ↔ t.workCount = 0
  once : t.closes.Nodup
  made : t.workDone < t.channels
  closedMade : ∀ channel ∈ t.closes, channel < t.channels
  active : t.activePeers = t.peers.size
  tracked : t.shutdownTrackedPeers = t.peers.size
  room : 0 < maxPeers → t.peers.size ≤ maxPeers

namespace Books

variable {maxPeers : Int} {ts : List Thread}

theorem new (maxPeers : Int) : Books maxPeers (.new maxPeers) where
  fixed := rfl
  idle := by simp [TCPTransport.new]
  once := by simp [TCPTransport.new]
  made := by simp [TCPTransport.new]
  closedMade := by simp [TCPTransport.new]
  active := by simp [TCPTransport.new]
  tracked := by simp [TCPTransport.new]
  room := by
    intro hpos
    simpa [TCPTransport.new] using hpos.le

theorem same (h : Books maxPeers t) (hsame : SameBooks t t') : Books maxPeers t' where
  fixed := hsame.maxPeers.trans h.fixed
  idle := by
    rw [hsame.workDone, hsame.closes, hsame.workCount]
    exact h.idle
  once := by
    rw [hsame.closes]
    exact h.once
  made := by
    rw [hsame.workDone, hsame.channels]
    exact h.made
  closedMade := by
    rw [hsame.closes, hsame.channels]
    exact h.closedMade
  active := by
    rw [hsame.activePeers, hsame.peers]
    exact h.active
  tracked := by
    rw [hsame.shutdownTrackedPeers, hsame.peers]
    exact h.tracked
  room := by
    rw [hsame.peers]
    exact h.room

/-- Work that starts when there is none comes with a new channel. -/
theorem startsWork (h : Books maxPeers t) (hstart : StartsWork t t') :
    Books maxPeers t' := by
  rw [hstart.eq]
  have hmade := h.made
  by_cases hzero : t.workCount = 0
  · refine ⟨h.fixed, ?_, h.once, ?_, ?_, h.active, h.tracked, h.room⟩
    · simp only [hzero, if_true]
      constructor
      · intro hmem
        have hlt := h.closedMade _ hmem
        omega
      · omega
    · simp only [hzero, if_true]
      omega
    · simp only [hzero, if_true]
      intro channel hmem
      have hlt := h.closedMade channel hmem
      omega
  · refine ⟨h.fixed, ?_, h.once, ?_, ?_, h.active, h.tracked, h.room⟩
    · simp only [hzero, if_false]
      have hidle := h.idle
      constructor
      · intro hmem
        exact absurd (hidle.mp hmem) hzero
      · omega
    · simp only [hzero, if_false]
      exact hmade
    · simp only [hzero, if_false]
      exact h.closedMade

/-- The last work that finishes closes the channel. -/
theorem finishWork (h : Books maxPeers t) : Books maxPeers t.finishWork := by
  unfold TCPTransport.finishWork
  by_cases hzero : t.workCount = 0
  · rw [if_pos hzero]
    exact h
  rw [if_neg hzero]
  have hnot : t.workDone ∉ t.closes := fun hmem => hzero (h.idle.mp hmem)
  by_cases hlast : t.workCount - 1 = 0
  · refine ⟨h.fixed, ?_, ?_, h.made, ?_, h.active, h.tracked, h.room⟩
    · simp [hlast]
    · simp only [hlast, if_true]
      exact List.nodup_append.mpr ⟨h.once, by simp, by
        intro a ha b hb hab
        rw [hab, List.mem_singleton.mp hb] at ha
        exact hnot ha⟩
    · simp only [hlast, if_true]
      intro channel hmem
      rcases List.mem_append.mp hmem with hold | hnew
      · exact h.closedMade channel hold
      · rw [List.mem_singleton.mp hnew]
        exact h.made
  · refine ⟨h.fixed, ?_, ?_, h.made, ?_, h.active, h.tracked, h.room⟩
    · simp only [hlast, if_false, iff_false]
      exact hnot
    · simp only [hlast, if_false]
      exact h.once
    · simp only [hlast, if_false]
      exact h.closedMade

theorem registers (h : Books maxPeers t) (hregisters : Registers t tp t') :
    Books maxPeers t' := by
  obtain ⟨t₁, hstart, rfl⟩ := hregisters.eq
  have hbegun := h.startsWork hstart
  have hpeers : t₁.peers = t.peers := by rw [hstart.eq]
  have hsize : (t₁.peers.insert tp.remoteAddr tp).size = t.peers.size + 1 := by
    rw [hpeers]
    simp [Std.ExtTreeMap.size_insert, hregisters.absent]
  have hactive := hbegun.active
  have htracked := hbegun.tracked
  have hroom := hregisters.room
  rw [hpeers] at hactive htracked
  refine ⟨hbegun.fixed, hbegun.idle, hbegun.once, hbegun.made, hbegun.closedMade, ?_, ?_, ?_⟩
  · change t₁.activePeers + 1 = ((t₁.peers.insert tp.remoteAddr tp).size : Int)
    rw [hsize]
    omega
  · change t₁.shutdownTrackedPeers + 1 = ((t₁.peers.insert tp.remoteAddr tp).size : Int)
    rw [hsize]
    omega
  · intro hpos
    change ((t₁.peers.insert tp.remoteAddr tp).size : Int) ≤ maxPeers
    rw [hsize]
    rw [h.fixed] at hroom
    omega

theorem unregister (h : Books maxPeers t) (tp : TCPPeer) :
    Books maxPeers (t.unregister tp) := by
  unfold TCPTransport.unregister
  by_cases hmem : tp.remoteAddr ∈ t.peers
  swap
  · rw [if_neg hmem]
    exact h
  rw [if_pos hmem]
  have hsize : (t.peers.erase tp.remoteAddr).size = t.peers.size - 1 := by
    simp [Std.ExtTreeMap.size_erase, hmem]
  have hpos : t.peers.size ≠ 0 := by
    intro hzero
    rw [Std.ExtTreeMap.eq_empty_iff_size_eq_zero.mpr hzero] at hmem
    simp at hmem
  have hactive := h.active
  have htracked := h.tracked
  refine ⟨h.fixed, h.idle, h.once, h.made, h.closedMade, ?_, ?_, ?_⟩
  · change t.activePeers - 1 = ((t.peers.erase tp.remoteAddr).size : Int)
    rw [hsize]
    omega
  · change t.shutdownTrackedPeers - 1 = ((t.peers.erase tp.remoteAddr).size : Int)
    rw [hsize]
    omega
  · intro hmax
    have hroom := h.room hmax
    change ((t.peers.erase tp.remoteAddr).size : Int) ≤ maxPeers
    rw [hsize]
    omega

theorem step (h : Books maxPeers t) (hperforms : Performs t th t' ts) :
    Books maxPeers t' := by
  cases hperforms with
  | skip steady => exact h
  | listen hstart =>
    exact (h.startsWork hstart).same
      ⟨rfl, rfl, rfl, rfl, rfl, rfl, rfl, rfl, rfl, rfl, rfl, rfl,
        List.Subset.refl _⟩
  | begin hstart => exact h.startsWork hstart
  | accept remoteAddr | dial remoteAddr addr haddr | track tp | close tp steady
  | note tp event notes | leave tp result | unlist tp =>
    exact ⟨h.fixed, h.idle, h.once, h.made, h.closedMade, h.active, h.tracked, h.room⟩
  | admitted hstart =>
    have hbegun := h.startsWork hstart
    exact ⟨hbegun.fixed, hbegun.idle, hbegun.once, hbegun.made, hbegun.closedMade,
      hbegun.active, hbegun.tracked, hbegun.room⟩
  | register hregisters => exact h.registers hregisters
  | unregister tp => exact h.unregister tp
  | exit | finish result | served tp => exact h.finishWork
  | shutdown s s' same => exact h.same same

end Books

/-! ## Shutting down -/

/-- The state in which a call of `Drain` or `Close` is at work. -/
def Stop.state? : Stop → Option LifecycleState
  | .entering _ | .returned => none
  | .leaving => some .closed
  | _ => some .draining

theorem Stop.state?_ne_open {s : Stop} {st : LifecycleState} (h : s.state? = some st) :
    st ≠ .open_ := by
  cases s <;> cases h <;> exact nofun

def Thread.state? : Thread → Option LifecycleState
  | .stop s => s.state?
  | _ => none

def Thread.isStop : Thread → Bool
  | .stop _ => true
  | _ => false

theorem Thread.state?_of_not_stop (hth : th.isStop = false) : th.state? = none := by
  cases th with
  | stop s => cases hth
  | _ => rfl

/-- One for the call that shuts the transport down. -/
def Thread.stops (th : Thread) : Nat := if th.state?.isSome then 1 else 0

/-- How the lifecycle state moves. -/
inductive LifecycleState.Moves : LifecycleState → LifecycleState → Prop
  | stays (s : LifecycleState) : Moves s s
  | drains : Moves .open_ .draining
  | closes : Moves .draining .closed

/-- What a waiting call relies on. -/
def Stop.Relies (t : TCPTransport) : Stop → Prop
  | .waiting done | .joining done => done = t.workDone
  | .drained => t.workCount = 0
  | _ => True

/-- The state is the one of the call that shuts down, and there is no other; it waits for
the channel of the work that is left. -/
structure Shutdown (t : TCPTransport) (threads : List Thread) : Prop where
  unique : total Thread.stops threads = if t.state = .open_ ∨ t.finished = true then 0 else 1
  state : ∀ th ∈ threads, ∀ st, th.state? = some st → t.state = st
  relies : ∀ s, .stop s ∈ threads → s.Relies t
  finished : t.finished = true → t.state = .closed

namespace Shutdown

variable {before after ts threads : List Thread} {choice : Choice} {maxPeers : Int}

theorem new (maxPeers : Int) : Shutdown (.new maxPeers) [] where
  unique := rfl
  state := by simp
  relies := by simp
  finished := by simp [TCPTransport.new]

theorem start (h : Shutdown t threads) (hstate : th.state? = none) :
    Shutdown t (threads ++ [th]) := by
  have hstops : th.stops = 0 := by
    unfold Thread.stops
    rw [hstate]
    rfl
  refine ⟨?_, ?_, ?_, h.finished⟩
  · rw [total_append, total_cons, hstops]
    exact h.unique
  · intro u hu st hst
    rcases List.mem_append.mp hu with hold | hnew
    · exact h.state u hold st hst
    · rw [List.mem_singleton.mp hnew, hstate] at hst
      cases hst
  · intro s hs
    rcases List.mem_append.mp hs with hold | hnew
    · exact h.relies s hold
    · rw [← List.mem_singleton.mp hnew] at hstate
      cases s with
      | entering _ | returned => trivial
      | _ => cases hstate

theorem state?_none (hzero : total Thread.stops threads = 0) :
    ∀ u ∈ threads, u.state? = none := by
  intro u hu
  have hu0 := total_eq_zero.mp hzero u hu
  unfold Thread.stops at hu0
  cases hstate : u.state? with
  | none => rfl
  | some st =>
    rw [hstate] at hu0
    cases hu0

/-- No two calls shut the transport down. -/
theorem alone (h : Shutdown t (before ++ th :: after)) (hth : th.state?.isSome) :
    (∀ u ∈ before ++ after, u.state? = none) ∧ t.finished ≠ true := by
  have hstops : th.stops = 1 := if_pos hth
  have hsum := h.unique
  rw [total_append, total_cons, hstops] at hsum
  constructor
  · refine state?_none ?_
    rw [total_append]
    split at hsum <;> omega
  · intro hfin
    rw [if_pos (.inr hfin)] at hsum
    omega

end Shutdown

/-- Calls of `Drain` and `Close` start nothing, and nothing else becomes one. -/
theorem Thread.next_isStop {choice : Choice} {ts : List Thread}
    (hnext : th.next choice t = some (t', ts)) : ∀ u ∈ ts, u.isStop = th.isStop := by
  cases th with
  | handler h =>
    obtain ⟨⟨t₁, h', serves⟩, _, heq⟩ := Option.map_eq_some_iff.mp hnext
    cases heq
    refine List.forall_mem_cons.mpr ⟨rfl, fun u hu => ?_⟩
    obtain ⟨s, _, rfl⟩ := List.mem_map.mp hu
    rfl
  | serve s | stop s =>
    obtain ⟨⟨t₁, s'⟩, _, heq⟩ := Option.map_eq_some_iff.mp hnext
    cases heq
    exact List.forall_mem_singleton.mpr rfl
  | listening | accepting | blocked | accepted tp | rejecting tp | exiting =>
    -- The accept loop goes on, alone or beside a new handler.
    simp only [Thread.next] at hnext
    repeat' split at hnext
    all_goals cases hnext
    all_goals simp [Thread.isStop]

/-- What the goroutines other than `Drain` and `Close` leave alone: the lifecycle state,
and the channel and the work once the transport is not open. -/
structure Untouched (t t' : TCPTransport) : Prop where
  state : t'.state = t.state
  finished : t'.finished = t.finished
  channel : t.state ≠ .open_ → t'.workDone = t.workDone
  work : t.state ≠ .open_ → t'.workCount ≤ t.workCount

theorem StartsWork.untouched (h : StartsWork t t') : Untouched t t' := by
  rw [h.eq]
  exact ⟨rfl, rfl, fun hno => absurd h.open_ hno, fun hno => absurd h.open_ hno⟩

theorem TCPTransport.finishWork_untouched (t : TCPTransport) : Untouched t t.finishWork := by
  unfold finishWork
  split
  · exact ⟨rfl, rfl, fun _ => rfl, fun _ => le_rfl⟩
  · exact ⟨rfl, rfl, fun _ => rfl, fun _ => Nat.sub_le _ _⟩

theorem Performs.untouched {ts : List Thread} (h : Performs t th t' ts)
    (hth : th.isStop = false) : Untouched t t' := by
  cases h with
  | listen hstart | begin hstart | admitted hstart =>
    exact ⟨hstart.untouched.state, hstart.untouched.finished, hstart.untouched.channel,
      hstart.untouched.work⟩
  | register hregisters =>
    obtain ⟨t₁, hstart, rfl⟩ := hregisters.eq
    exact ⟨hstart.untouched.state, hstart.untouched.finished, hstart.untouched.channel,
      hstart.untouched.work⟩
  | unregister tp =>
    unfold TCPTransport.unregister
    split
    · exact ⟨rfl, rfl, fun _ => rfl, fun _ => le_rfl⟩
    · exact ⟨rfl, rfl, fun _ => rfl, fun _ => le_rfl⟩
  | exit | finish result | served tp => exact t.finishWork_untouched
  | shutdown => cases hth
  | _ => exact ⟨rfl, rfl, fun _ => rfl, fun _ => le_rfl⟩

namespace Shutdown

variable {before after ts threads : List Thread} {choice : Choice} {maxPeers : Int}

/-- A step of a goroutine that is neither `Drain` nor `Close`. -/
theorem others (h : Shutdown t (before ++ th :: after)) (hth : th.isStop = false)
    (hts : ∀ u ∈ ts, u.isStop = false) (hsame : Untouched t t') :
    Shutdown t' (before ++ ts ++ after) := by
  have hstops : ∀ u : Thread, u.isStop = false → u.stops = 0 := by
    intro u hu
    unfold Thread.stops
    rw [Thread.state?_of_not_stop hu]
    rfl
  have hts0 : total Thread.stops ts = 0 := total_eq_zero.mpr fun u hu => hstops u (hts u hu)
  have hsum := @total_replace _ Thread.stops before after ts th
  have hold : ∀ u, u ∈ before ++ ts ++ after → u.isStop = true →
      u ∈ before ++ th :: after := by
    intro u hu hstop
    simp only [List.mem_append, List.mem_cons] at hu ⊢
    rcases hu with (hu | hu) | hu
    · exact .inl hu
    · rw [hts u hu] at hstop
      cases hstop
    · exact .inr (.inr hu)
  refine ⟨?_, ?_, ?_, ?_⟩
  · rw [hsame.state, hsame.finished, ← h.unique]
    rw [hstops th hth, hts0] at hsum
    exact hsum
  · intro u hu st hst
    cases u with
    | stop s =>
      rw [hsame.state]
      exact h.state _ (hold _ hu rfl) st hst
    | _ => cases hst
  · intro s hs
    have hmem := hold _ hs rfl
    have hrelies := h.relies s hmem
    cases hst : s.state? with
    | none =>
      cases s with
      | entering _ | returned => trivial
      | _ => cases hst
    | some st =>
      have hnot : t.state ≠ .open_ := by
        rw [h.state _ hmem st hst]
        exact Stop.state?_ne_open hst
      cases s with
      | waiting done | joining done => exact hrelies.trans (hsame.channel hnot).symm
      | drained =>
        have hle := hsame.work hnot
        change t.workCount = 0 at hrelies
        change t'.workCount = 0
        omega
      | _ => trivial
  · intro hfin
    rw [hsame.state]
    rw [hsame.finished] at hfin
    exact h.finished hfin

/-- A step of the call that shuts down, within a state. -/
theorem stays {s s' : Stop} (h : Shutdown t (before ++ .stop s :: after))
    (hstate : s'.state? = s.state?) (hsame : t'.state = t.state)
    (hfinished : t'.finished = t.finished) (hbooks : SameBooks t t') (hrelies : s'.Relies t') :
    Shutdown t' (before ++ [.stop s'] ++ after) ∧ t.state.Moves t'.state := by
  have hth : Thread.state? (.stop s') = Thread.state? (.stop s) := hstate
  have hstops : Thread.stops (.stop s') = Thread.stops (.stop s) := by
    unfold Thread.stops
    rw [hth]
  have hsum := @total_replace _ Thread.stops before after [.stop s'] (.stop s)
  refine ⟨⟨?_, ?_, ?_, ?_⟩, hsame ▸ .stays _⟩
  · rw [hsame, hfinished, ← h.unique]
    rw [total_cons, total_nil, hstops] at hsum
    omega
  · rw [hsame]
    refine forall_replace h.state (fun u _ hu => hu) ?_
    intro u hu st hst
    rw [List.mem_singleton.mp hu] at hst
    exact h.state (.stop s) (by simp) st (hth.symm.trans hst)
  · have hkeep : ∀ u ∈ before ++ [.stop s'] ++ after, ∀ v, u = .stop v → v.Relies t' := by
      refine forall_replace (P := fun u => ∀ v, u = .stop v → v.Relies t)
        (t := .stop s) ?_ ?_ ?_
      · intro u hu v hv
        exact h.relies v (hv ▸ hu)
      · intro u _ hu v hv
        have hold := hu v hv
        cases v with
        | waiting done | joining done => exact hold.trans hbooks.workDone.symm
        | drained => exact hbooks.workCount.trans hold
        | _ => trivial
      · intro u hu v hv
        rw [List.mem_singleton.mp hu] at hv
        cases hv
        exact hrelies
    exact fun v hv => hkeep _ hv v rfl
  · intro hfin
    rw [hfinished] at hfin
    rw [hsame]
    exact h.finished hfin

/-- A step of the only call that shuts down, to another state. -/
theorem moves {s s' : Stop} (h : Shutdown t (before ++ .stop s :: after))
    (halone : ∀ u ∈ before ++ after, u.state? = none)
    (hstops : Thread.stops (.stop s') = if t'.state = .open_ ∨ t'.finished = true then 0 else 1)
    (hstate : ∀ st, s'.state? = some st → t'.state = st) (hrelies : s'.Relies t')
    (hfinished : t'.finished = true → t'.state = .closed) :
    Shutdown t' (before ++ [.stop s'] ++ after) := by
  have hzero : total Thread.stops (before ++ after) = 0 := by
    refine total_eq_zero.mpr fun u hu => ?_
    unfold Thread.stops
    rw [halone u hu]
    rfl
  refine ⟨?_, ?_, ?_, hfinished⟩
  · rw [← hstops]
    simp only [total_append, total_cons, total_nil] at hzero ⊢
    omega
  · refine forall_replace h.state (fun u hu _ st hst => ?_) ?_
    · rw [halone u hu] at hst
      cases hst
    · intro u hu st hst
      rw [List.mem_singleton.mp hu] at hst
      exact hstate st hst
  · intro v hv
    have hv' : .stop v ∈ before ++ after ∨ v = s' := by
      simp only [List.mem_append, List.mem_singleton, Thread.stop.injEq] at hv ⊢
      tauto
    rcases hv' with hv' | rfl
    · have hnone := halone _ hv'
      cases v with
      | entering _ | returned => trivial
      | _ => cases hnone
    · exact hrelies

/-- The call that shuts down declares the transport closed. -/
theorem marksClosed {s : Stop} (h : Shutdown t (before ++ .stop s :: after))
    (hs : s.state? = some .draining) :
    Shutdown t.markClosed (before ++ [.stop .leaving] ++ after) ∧
      t.state.Moves t.markClosed.state := by
  have hdraining : t.state = .draining := h.state (.stop s) (by simp) .draining hs
  have hsome : (Thread.stop s).state?.isSome := by
    change s.state?.isSome
    rw [hs]
    rfl
  obtain ⟨halone, hunfinished⟩ := h.alone hsome
  refine ⟨h.moves halone ?_ ?_ trivial fun _ => rfl, ?_⟩
  · have hnot : ¬ (LifecycleState.closed = .open_ ∨ t.finished = true) := by
      simp [hunfinished]
    exact (if_neg hnot).symm
  · intro st hst
    exact Option.some.inj hst
  · rw [hdraining]
    exact .closes

/-- What a step of `Drain` or `Close` keeps, and how it moves the state. -/
theorem stop {s s' : Stop} (h : Shutdown t (before ++ .stop s :: after))
    (hbooks : Books maxPeers t) (hnext : s.next choice t = some (t', s')) :
    Shutdown t' (before ++ [.stop s'] ++ after) ∧ t.state.Moves t'.state := by
  have hsame := Stop.next_sameBooks hnext
  cases s with
  | entering hard =>
    simp only [Stop.next] at hnext
    by_cases hopen : t.state = .open_
    · rw [if_pos hopen] at hnext
      cases hnext
      have hzero := h.unique
      rw [if_pos (.inl hopen)] at hzero
      have halone : ∀ u ∈ before ++ after, u.state? = none := by
        refine state?_none ?_
        simp only [total_append, total_cons] at hzero ⊢
        omega
      have hunfinished : t.finished ≠ true := by
        intro hfin
        rw [h.finished hfin] at hopen
        cases hopen
      refine ⟨h.moves halone ?_ ?_ trivial ?_, ?_⟩
      · have hnot : ¬ (LifecycleState.draining = .open_ ∨ t.finished = true) := by
          simp [hunfinished]
        exact (if_neg hnot).symm
      · intro st hst
        exact Option.some.inj hst
      · exact fun hfin => absurd hfin hunfinished
      · rw [hopen]
        exact .drains
    · rw [if_neg hopen] at hnext
      split at hnext
      · cases hnext
        exact h.stays rfl rfl rfl hsame trivial
      · cases hnext
  | begun hard pending active | expired =>
    cases hnext
    exact h.stays rfl rfl rfl hsame trivial
  | closing hard left =>
    rcases Stop.closeNext_some hnext with ⟨_, rfl, rfl⟩ | ⟨tp, _, rfl, rfl⟩
    · cases hard <;> exact h.stays rfl rfl rfl hsame trivial
    · exact h.stays rfl rfl rfl hsame trivial
  | awaiting | rejoining =>
    cases hnext
    exact h.stays rfl rfl rfl hsame rfl
  | waiting done =>
    have hdone : done = t.workDone := h.relies (.waiting done) (by simp)
    obtain ⟨rfl, ⟨hclosed, rfl⟩ | rfl⟩ := Stop.wait_some hnext
    · rw [hdone] at hclosed
      exact h.stays rfl rfl rfl hsame (hbooks.idle.mp hclosed)
    · exact h.stays rfl rfl rfl hsame trivial
  | drained | completing =>
    cases hnext
    exact h.marksClosed rfl
  | forcing left =>
    rcases Stop.closeNext_some hnext with ⟨_, rfl, rfl⟩ | ⟨tp, _, rfl, rfl⟩
    · exact h.stays rfl rfl rfl hsame trivial
    · exact h.stays rfl rfl rfl hsame trivial
  | joining done =>
    obtain ⟨rfl, ⟨_, rfl⟩ | rfl⟩ := Stop.wait_some hnext
    · exact h.stays rfl rfl rfl hsame trivial
    · exact h.stays rfl rfl rfl hsame trivial
  | leaving =>
    cases hnext
    have hclosed : t.state = .closed := h.state (.stop .leaving) (by simp) .closed rfl
    refine ⟨h.moves (h.alone rfl).1 ?_ (by simp [Stop.state?]) trivial fun _ => hclosed, .stays _⟩
    exact (if_pos (.inr rfl)).symm
  | returned => cases hnext

/-- What any step keeps, and how it moves the state. -/
theorem step (h : Shutdown t (before ++ th :: after)) (hbooks : Books maxPeers t)
    (hnext : th.next choice t = some (t', ts)) :
    Shutdown t' (before ++ ts ++ after) ∧ t.state.Moves t'.state := by
  by_cases hth : th.isStop = true
  · cases th with
    | stop s =>
      obtain ⟨⟨t₁, s'⟩, hs, heq⟩ := Option.map_eq_some_iff.mp hnext
      cases heq
      exact h.stop hbooks hs
    | _ => cases hth
  · have hnot : th.isStop = false := by simpa using hth
    have hsame := (Thread.next_performs hnext).untouched hnot
    refine ⟨h.others hnot (fun u hu => ?_) hsame, ?_⟩
    · rw [Thread.next_isStop hnext u hu, hnot]
    · rw [hsame.state]
      exact .stays _

end Shutdown

/-! ## What happens to a peer -/

theorem TCPTransport.history_of_log {event : PeerEvent} (h : t'.log = t.log ++ [(tp, event)])
    (tp' : TCPPeer) : t'.history tp' = t.history tp' ++ if tp = tp' then [event] else [] := by
  unfold history
  rw [h, List.filter_append, List.map_append]
  by_cases htp : tp = tp'
  · simp [htp]
  · simp [htp]

/-- Each peer is as far in its story as its goroutine; without a goroutine it is before
the beginning or past the end. -/
structure Chronicle (t : TCPTransport) (threads : List Thread) : Prop where
  held : ∀ th ∈ threads, ∀ tp, th.peer? = some tp → t.history tp = story.take th.stage
  done : ∀ tp, (∀ th ∈ threads, th.peer? ≠ some tp) →
    t.history tp = [] ∨ t.history tp = story
  opened : ∀ tp, t.history tp ≠ [] → tp ∈ t.opened

namespace Chronicle

variable {u : Thread} {before after ts threads : List Thread} {choice : Choice}
  {event : PeerEvent}

theorem new (maxPeers : Int) : Chronicle (.new maxPeers) [] where
  held := by simp
  done := fun _ _ => .inl rfl
  opened := fun _ h => absurd rfl h

theorem start (h : Chronicle t threads) (hpeer : th.peer? = none) :
    Chronicle t (threads ++ [th]) where
  held := by
    intro u hu tp htp
    rcases List.mem_append.mp hu with hold | hnew
    · exact h.held u hold tp htp
    · rw [List.mem_singleton.mp hnew, hpeer] at htp
      cases htp
  done := fun tp hnone => h.done tp fun u hu => hnone u (List.mem_append_left _ hu)
  opened := h.opened

/-- A step in which nothing happens to a peer. -/
theorem quiet (h : Chronicle t (before ++ th :: after))
    (hkeeps : ∀ u ∈ ts, ∀ tp, u.peer? = some tp → th.peer? = some tp ∧ u.stage = th.stage)
    (hdrops : ∀ tp, th.peer? = some tp →
      (∃ u ∈ ts, u.peer? = some tp) ∨ th.stage = 0 ∨ th.stage = 4)
    (hlog : t'.log = t.log) (hopened : t'.opened = t.opened) :
    Chronicle t' (before ++ ts ++ after) := by
  have hhistory : ∀ tp, t'.history tp = t.history tp := by
    intro tp
    unfold TCPTransport.history
    rw [hlog]
  refine ⟨?_, ?_, ?_⟩
  · simp only [hhistory]
    refine forall_replace h.held (fun u _ hu => hu) ?_
    intro u hu tp htp
    obtain ⟨hth, hstage⟩ := hkeeps u hu tp htp
    rw [hstage]
    exact h.held th (by simp) tp hth
  · intro tp hnone
    rw [hhistory]
    by_cases hth : th.peer? = some tp
    · have hheld := h.held th (by simp) tp hth
      rcases hdrops tp hth with ⟨u, hu, htp⟩ | hzero | hfour
      · exact absurd htp (hnone u (by simp [hu]))
      · rw [hzero] at hheld
        exact .inl hheld
      · rw [hfour] at hheld
        exact .inr hheld
    · refine h.done tp fun u hu => ?_
      simp only [List.mem_append, List.mem_cons] at hu
      rcases hu with hu | rfl | hu
      · exact hnone u (by simp [hu])
      · exact hth
      · exact hnone u (by simp [hu])
  · intro tp hne
    rw [hhistory] at hne
    rw [hopened]
    exact h.opened tp hne

/-- A step in which the next event happens to the peer of the goroutine. -/
theorem noted (h : Chronicle t (before ++ th :: after))
    (haccounted : Accounted t (before ++ th :: after)) (hth : th.peer? = some tp)
    (hevent : story[th.stage]? = some event) (hu : u.peer? = some tp)
    (hstage : u.stage = th.stage + 1) (hlog : t'.log = t.log ++ [(tp, event)])
    (hopened : t'.opened = t.opened) : Chronicle t' (before ++ [u] ++ after) := by
  have hhistory := TCPTransport.history_of_log hlog
  have hself : t'.history tp = story.take u.stage := by
    rw [hhistory, if_pos rfl, h.held th (by simp) tp hth, hstage, List.take_add_one, hevent]
    rfl
  have hother : ∀ tp', tp' ≠ tp → t'.history tp' = t.history tp' := by
    intro tp' hne
    rw [hhistory, if_neg (Ne.symm hne), List.append_nil]
  have hone := haccounted.held_le_one tp
  rw [total_append, total_cons, mark_self hth] at hone
  have halone : ∀ v ∈ before ++ after, v.peer? ≠ some tp := by
    intro v hv hpeer
    have hle : mark Thread.peer? tp v ≤ total (mark Thread.peer? tp) (before ++ after) :=
      le_total hv
    rw [mark_self hpeer, total_append] at hle
    omega
  refine ⟨?_, ?_, ?_⟩
  · refine forall_replace h.held (fun v hv hheld tp' htp' => ?_) ?_
    · have hne : tp' ≠ tp := fun heq => halone v hv (heq ▸ htp')
      rw [hother tp' hne]
      exact hheld tp' htp'
    · intro v hv tp' htp'
      rw [List.mem_singleton.mp hv, hu] at htp'
      cases htp'
      rw [List.mem_singleton.mp hv]
      exact hself
  · intro tp' hnone
    have hne : tp' ≠ tp := fun heq => hnone u (by simp) (heq ▸ hu)
    rw [hother tp' hne]
    refine h.done tp' fun v hv => ?_
    simp only [List.mem_append, List.mem_cons] at hv
    rcases hv with hv | rfl | hv
    · exact hnone v (by simp [hv])
    · rw [hth]
      exact fun heq => hne (Option.some.inj heq).symm
    · exact hnone v (by simp [hv])
  · intro tp' hne'
    rw [hopened]
    by_cases htp : tp' = tp
    · rw [htp]
      have hheld := haccounted.held tp
      rw [total_append, total_cons, mark_self hth] at hheld
      exact List.count_pos_iff.mp (by omega)
    · rw [hother tp' htp] at hne'
      exact h.opened tp' hne'

/-- A step that opens a connection: nothing has happened to it yet. -/
theorem opens (h : Chronicle t (before ++ th :: after))
    (haccounted : Accounted t (before ++ th :: after)) (remoteAddr : String)
    (outbound : Bool) (dialTarget : String) (hth : th.peer? = none)
    (hu : u.peer? = some (t.openConn remoteAddr outbound dialTarget).1) (hstage : u.stage = 0) :
    Chronicle (t.openConn remoteAddr outbound dialTarget).2 (before ++ [u] ++ after) := by
  have hfresh : t.history (t.openConn remoteAddr outbound dialTarget).1 = [] := by
    by_contra hne
    exact lt_irrefl _ (haccounted.numbered _ (h.opened _ hne))
  refine ⟨?_, ?_, ?_⟩
  · refine forall_replace h.held (fun v _ hheld => hheld) ?_
    intro v hv tp htp
    rw [List.mem_singleton.mp hv] at htp ⊢
    rw [hu] at htp
    cases htp
    rw [hstage]
    exact hfresh
  · intro tp hnone
    refine h.done tp fun v hv => ?_
    simp only [List.mem_append, List.mem_cons] at hv
    rcases hv with hv | rfl | hv
    · exact hnone v (by simp [hv])
    · rw [hth]
      exact nofun
    · exact hnone v (by simp [hv])
  · intro tp hne
    exact List.mem_append_left _ (h.opened tp hne)

theorem step (h : Chronicle t (before ++ th :: after))
    (haccounted : Accounted t (before ++ th :: after)) (hperforms : Performs t th t' ts) :
    Chronicle t' (before ++ ts ++ after) := by
  cases hperforms with
  | skip steady | close tp steady =>
    exact h.quiet steady.keeps (fun tp htp => (steady.drops tp htp).imp_right .inl) rfl rfl
  | listen hstart | begin hstart | admitted hstart =>
    rw [hstart.eq]
    exact h.quiet (by simp) (by simp) rfl rfl
  | accept remoteAddr => exact h.opens haccounted remoteAddr false "" rfl rfl rfl
  | dial remoteAddr addr haddr => exact h.opens haccounted remoteAddr true addr rfl rfl rfl
  | register hregisters =>
    obtain ⟨t₁, hstart, rfl⟩ := hregisters.eq
    rw [hstart.eq]
    exact h.noted haccounted rfl rfl rfl rfl rfl rfl
  | note tp event notes =>
    exact h.noted haccounted notes.before notes.event notes.after notes.stage rfl rfl
  | unregister tp =>
    unfold TCPTransport.unregister
    split
    · exact h.quiet (by simp) (by simp) rfl rfl
    · exact h.quiet (by simp) (by simp) rfl rfl
  | track tp | leave tp result | unlist tp => exact h.quiet (by simp) (by simp) rfl rfl
  | exit | finish result | served tp =>
    unfold TCPTransport.finishWork
    split
    · exact h.quiet (by simp) (by simp) rfl rfl
    · exact h.quiet (by simp) (by simp) rfl rfl
  | shutdown s s' same => exact h.quiet (by simp) (by simp) same.log same.opened

end Chronicle

/-! ## Runs -/

theorem Accounted.exists_registered {threads : List Thread} (h : Accounted t threads)
    {key : String} (hget : t.peers[key]? = some tp) :
    ∃ th ∈ threads, th.registered? = some tp := by
  have hlisted : t.listed tp = 1 := by
    unfold TCPTransport.listed
    rw [h.keyed key tp hget, if_pos hget]
  by_contra hno
  push Not at hno
  have hnone : total (mark Thread.registered? tp) threads = 0 :=
    total_eq_zero.mpr fun th hth => if_neg (hno th hth)
  have hsum := h.registered tp
  omega

/-- Without work there are no tracked connections and no registered peers. -/
theorem Accounted.idle {threads : List Thread} (h : Accounted t threads)
    (hzero : t.workCount = 0) : t.peers = ∅ ∧ t.connections = [] := by
  have hunits : total Thread.units threads = 0 := h.work.symm.trans hzero
  have htracked : ∀ tp, ∀ th ∈ threads, mark Thread.tracked? tp th = 0 := by
    intro tp th hth
    have hle := mark_tracked_le_units tp th
    have hidle := total_eq_zero.mp hunits th hth
    omega
  constructor
  · refine Std.ExtTreeMap.ext_getElem? fun key => ?_
    rw [Std.ExtTreeMap.getElem?_empty]
    cases hget : t.peers[key]? with
    | none => rfl
    | some tp =>
      obtain ⟨th, hth, hregistered⟩ := h.exists_registered hget
      have hle := mark_registered_le tp th
      rw [mark_self hregistered, htracked tp th hth] at hle
      omega
  · refine List.eq_nil_iff_forall_not_mem.mpr fun tp hmem => ?_
    have hpos := List.count_pos_iff.mpr hmem
    rw [h.tracked tp, total_eq_zero.mpr (htracked tp)] at hpos
    omega

/-- No peer is registered unless the transport is open. -/
theorem Performs.peers {ts : List Thread} (h : Performs t th t' ts) (hstate : t.state ≠ .open_)
    {key : String} (hget : t'.peers[key]? = some tp) : t.peers[key]? = some tp := by
  rcases h.peers_cases with hsame | ⟨_, hregisters⟩ | ⟨tp', _, rfl, _⟩
  · rw [hsame] at hget
    exact hget
  · obtain ⟨t₁, hstart, _⟩ := hregisters.eq
    exact absurd hstart.open_ hstate
  · unfold TCPTransport.unregister at hget
    split at hget
    · change (t.peers.erase tp'.remoteAddr)[key]? = some tp at hget
      simp only [Std.ExtTreeMap.getElem?_erase, Std.LawfulEqCmp.compare_eq_iff_eq] at hget
      split at hget
      · cases hget
      · exact hget
    · exact hget

/-- What holds in every interleaving. -/
structure Sound (maxPeers : Int) (t : TCPTransport) (threads : List Thread) : Prop where
  accounted : Accounted t threads
  books : Books maxPeers t
  shutdown : Shutdown t threads
  chronicle : Chronicle t threads

namespace Sound

variable {maxPeers : Int} {before after ts threads : List Thread} {choice : Choice} {s : System}

theorem step (h : Sound maxPeers t (before ++ th :: after))
    (hnext : th.next choice t = some (t', ts)) : Sound maxPeers t' (before ++ ts ++ after) where
  accounted := h.accounted.step (Thread.next_performs hnext)
  books := h.books.step (Thread.next_performs hnext)
  shutdown := (h.shutdown.step h.books hnext).1
  chronicle := h.chronicle.step h.accounted (Thread.next_performs hnext)

theorem start (h : Sound maxPeers t threads) (c : Call) :
    Sound maxPeers t (threads ++ [c.thread]) := by
  cases c with
  | listenAndAccept | dial addr | drain | close =>
    exact ⟨h.accounted.start rfl rfl, h.books, h.shutdown.start rfl, h.chronicle.start rfl⟩

/-- One action keeps what holds, moves the state at most one on, and registers no peer
unless the transport is open. -/
theorem action (h : Sound maxPeers s.shared s.threads) (a : Action) :
    Sound maxPeers (s.step a).shared (s.step a).threads ∧
      s.shared.state.Moves (s.step a).shared.state ∧
      (s.shared.state ≠ .open_ → ∀ (key : String) tp,
        (s.step a).shared.peers[key]? = some tp → s.shared.peers[key]? = some tp) := by
  cases a with
  | call c => exact ⟨h.start c, .stays _, fun _ _ _ hget => hget⟩
  | run i choice =>
    rcases Pool.run_cases Thread.next s i choice with hsame |
      ⟨before, th, after, t', ts, hsplit, _, hnext, hrun⟩
    · have hstep : s.step (.run i choice) = s := hsame
      rw [hstep]
      exact ⟨h, .stays _, fun _ _ _ hget => hget⟩
    · have hstep : s.step (.run i choice) = ⟨t', before ++ ts ++ after⟩ := hrun
      rw [hstep]
      rw [show s.threads = before ++ th :: after from congrArg Pool.threads hsplit] at h
      exact ⟨h.step hnext, (h.shutdown.step h.books hnext).2,
        fun hstate _ _ hget => (Thread.next_performs hnext).peers hstate hget⟩

theorem run (maxPeers : Int) (actions : List Action) :
    Sound maxPeers (System.after maxPeers actions).shared
      (System.after maxPeers actions).threads := by
  have hstart : Sound maxPeers (System.new maxPeers).shared (System.new maxPeers).threads :=
    ⟨.new maxPeers, .new maxPeers, .new maxPeers, .new maxPeers⟩
  exact Transition.run_invariant (P := fun _ _ => True)
    (I := fun s : System => Sound maxPeers s.shared s.threads)
    (fun _ a _ hs => (hs.action a).1) (Transition.along_of_forall fun _ _ _ => trivial) hstart

end Sound

theorem Thread.stage_eq_one (hpeer : th.peer? = some tp) (hstage : th.stage = 1) :
    th = .handler (.announcing tp) := by
  cases th with
  | handler h => cases h <;> simp_all
  | serve s => cases s <;> simp_all
  | _ => simp_all

theorem Thread.stage_eq_three (hpeer : th.peer? = some tp) (hstage : th.stage = 3) :
    th = .serve (.ended tp) ∨ th = .serve (.unlisted tp) ∨ th = .serve (.notifying tp) := by
  cases th with
  | handler h => cases h <;> simp_all
  | serve s => cases s <;> simp_all
  | _ => simp_all

theorem Thread.stage_pos_of_registered (hregistered : th.registered? = some tp) :
    th.peer? = some tp ∧ 0 < th.stage := by
  cases th with
  | handler h => cases h <;> simp_all
  | serve s => cases s <;> simp_all
  | _ => simp_all

/-- Which events have happened is how many have. -/
theorem mem_story_take (n : Nat) :
    (.registered ∈ story.take n ↔ 1 ≤ n) ∧ (.onPeer ∈ story.take n ↔ 2 ≤ n) ∧
      (.served ∈ story.take n ↔ 3 ≤ n) ∧ (.onPeerDisconnected ∈ story.take n ↔ 4 ≤ n) := by
  match n with
  | 0 | 1 | 2 | 3 => decide
  | n + 4 =>
    have htake : story.take (n + 4) = story := List.take_of_length_le (by simp [story])
    rw [htake]
    simp [story]

/-- Whatever has happened to a peer, its goroutine stands where its story does. -/
theorem Chronicle.stands {threads : List Thread} (h : Chronicle t threads) (tp : TCPPeer) :
    t.history tp = [] ∨ t.history tp = story ∨
      ∃ th ∈ threads, th.peer? = some tp ∧ t.history tp = story.take th.stage := by
  by_cases hheld : ∃ th ∈ threads, th.peer? = some tp
  · obtain ⟨th, hth, hpeer⟩ := hheld
    exact .inr (.inr ⟨th, hth, hpeer, h.held th hth tp hpeer⟩)
  · push Not at hheld
    rcases h.done tp hheld with hnone | hall
    · exact .inl hnone
    · exact .inr (.inl hall)

/-- There is no work, no registered peer and no tracked connection. -/
def TCPTransport.Idle (t : TCPTransport) : Prop :=
  t.workCount = 0 ∧ t.peers = ∅ ∧ t.connections = []

/-- After any actions on a new transport: the state moves from open to draining to
closed only; the peers are within the limit and the gauges show their number; the done
channel is closed exactly when there is no work, and no channel is closed twice; no peer
is registered unless the transport is open; each peer goes through its story in order
and without repetition, its registration is followed by `OnPeer` and the end of its
serve loop by `OnPeerDisconnected`, or a goroutine is about to make that call; and the
transport is idle when the wait of `Drain` can end, or has ended, in time. -/
theorem transport_lifecycle (maxPeers : Int) (actions : List Action) :
    let s := System.after maxPeers actions
    let t := s.shared
    (∀ a, t.state.Moves (s.step a).shared.state) ∧
    (0 < maxPeers → t.peers.size ≤ maxPeers) ∧
    (t.activePeers = t.peers.size ∧ t.shutdownTrackedPeers = t.peers.size) ∧
    ((t.workDone ∈ t.closes ↔ t.workCount = 0) ∧ t.closes.Nodup) ∧
    (t.state ≠ .open_ → ∀ a (key : String) tp,
      (s.step a).shared.peers[key]? = some tp → t.peers[key]? = some tp) ∧
    (∀ (key : String) tp, t.peers[key]? = some tp → .registered ∈ t.history tp) ∧
    (∀ tp, t.history tp <+: story ∧
      (.registered ∈ t.history tp →
        .onPeer ∈ t.history tp ∨ .handler (.announcing tp) ∈ s.threads) ∧
      (.served ∈ t.history tp → .onPeerDisconnected ∈ t.history tp ∨
        ∃ th ∈ s.threads, th = .serve (.ended tp) ∨ th = .serve (.unlisted tp) ∨
          th = .serve (.notifying tp))) ∧
    (∀ done, .stop (.waiting done) ∈ s.threads → done ∈ t.closes → t.Idle) ∧
    (.stop .drained ∈ s.threads → t.Idle) := by
  intro s t
  have h := Sound.run maxPeers actions
  refine ⟨fun a => (h.action a).2.1, h.books.room, ⟨h.books.active, h.books.tracked⟩,
    ⟨h.books.idle, h.books.once⟩, fun hstate a => (h.action a).2.2 hstate, ?_, ?_, ?_, ?_⟩
  · intro key tp hget
    obtain ⟨th, hth, hregistered⟩ := h.accounted.exists_registered hget
    obtain ⟨hpeer, hpos⟩ := Thread.stage_pos_of_registered hregistered
    rw [h.chronicle.held th hth tp hpeer]
    exact (mem_story_take _).1.mpr hpos
  · intro tp
    rcases h.chronicle.stands tp with hnone | hall | ⟨th, hth, hpeer, hstory⟩
    · have hhistory : t.history tp = [] := hnone
      rw [hhistory]
      exact ⟨List.nil_prefix, nofun, nofun⟩
    · have hhistory : t.history tp = story := hall
      rw [hhistory]
      exact ⟨List.prefix_rfl, fun _ => .inl (by decide), fun _ => .inl (by decide)⟩
    · have hhistory : t.history tp = story.take th.stage := hstory
      obtain ⟨hregistered, honPeer, hserved, hdisconnected⟩ := mem_story_take th.stage
      rw [hhistory, hregistered, honPeer, hserved, hdisconnected]
      refine ⟨List.take_prefix _ _, fun hone => ?_, fun hthree => ?_⟩
      · by_cases hstage : th.stage = 1
        · exact .inr (Thread.stage_eq_one hpeer hstage ▸ hth)
        · exact .inl (by omega)
      · by_cases hstage : th.stage = 3
        · exact .inr ⟨th, hth, Thread.stage_eq_three hpeer hstage⟩
        · exact .inl (by omega)
  · intro done hmem hclosed
    rw [show done = t.workDone from h.shutdown.relies _ hmem] at hclosed
    have hzero := h.books.idle.mp hclosed
    exact ⟨hzero, h.accounted.idle hzero⟩
  · intro hmem
    have hzero : t.workCount = 0 := h.shutdown.relies _ hmem
    exact ⟨hzero, h.accounted.idle hzero⟩

end StreamHive.Transport
