import StreamHive.Transport.PeerLifecycle

/-!
# Which sockets stay open

Every connection that the transport accepts or dials should be closed by the transport,
or be tracked, or be in the hands of a goroutine that will track or close it.  The serve
loop of a peer returns without closing its connection, and `unregisterPeer` forgets the
connection: it is lost unless `Close` or an expired `Drain` has closed it before.

## Main results

* `Guarded.step` — a step keeps every connection in hand, unless a serve loop forgets one
  that is open;
* `Accounted.forgets` — such a step loses the connection;
* `no_socket_escapes_iff` — the runs in which no socket escapes.
-/

namespace StreamHive.Transport

open Verified Threads

/-- Every connection is closed, tracked, or in the hands of a goroutine that will track
or close it. -/
def System.NoEscape (s : System) : Prop :=
  ∀ tp ∈ s.shared.opened, tp ∈ s.shared.closed ∨ tp ∈ s.shared.connections ∨
    ∃ th ∈ s.threads, th.custody? = some tp

/-- Once `Drain` or `Close` has returned and all work has finished, every connection is
closed. -/
def System.AllClosed (s : System) : Prop :=
  s.shared.finished = true → s.shared.workCount = 0 →
    ∀ tp ∈ s.shared.opened, tp ∈ s.shared.closed

/-- A serve loop forgets its connection only after the transport has closed it. -/
def System.Keeps (s : System) : Action → Prop
  | .call _ => True
  | .run i _ => ∀ tp, s.threads[i]? = some (.serve (.unlisted tp)) → tp ∈ s.shared.closed

instance (s : System) : Decidable s.NoEscape := by
  unfold System.NoEscape
  infer_instance

/-! ## Steps that keep every connection in hand -/

/-- No connection has escaped, and what a goroutine is about to remove is closed. -/
structure Guarded (t : TCPTransport) (threads : List Thread) : Prop where
  held : ∀ tp ∈ t.opened, tp ∈ t.closed ∨ tp ∈ t.connections ∨
    ∃ th ∈ threads, th.custody? = some tp
  leaving : ∀ th ∈ threads, ∀ tp, th.leaving? = some tp → tp ∈ t.closed

namespace Guarded

variable {t t' : TCPTransport} {th : Thread} {before after ts threads : List Thread}

theorem new (maxPeers : Int) : Guarded (.new maxPeers) [] where
  held := by simp [TCPTransport.new]
  leaving := by simp

theorem start (h : Guarded t threads) (hleaving : th.leaving? = none) :
    Guarded t (threads ++ [th]) where
  held := by
    intro tp htp
    rcases h.held tp htp with hclosed | htracked | ⟨u, hu, hcustody⟩
    · exact .inl hclosed
    · exact .inr (.inl htracked)
    · exact .inr (.inr ⟨u, List.mem_append_left _ hu, hcustody⟩)
  leaving := by
    intro u hu tp htp
    rcases List.mem_append.mp hu with hold | hnew
    · exact h.leaving u hold tp htp
    · rw [List.mem_singleton.mp hnew, hleaving] at htp
      cases htp

section Replace

variable (h : Guarded t (before ++ th :: after))
include h

/-- Replace a goroutine that hands on its connection. -/
theorem replace (hclosed : t.closed ⊆ t'.closed)
    (hopened : ∀ tp ∈ t'.opened, tp ∈ t.opened ∨ ∃ u ∈ ts, u.custody? = some tp)
    (htracked : ∀ tp ∈ t.connections, tp ∈ t'.closed ∨ tp ∈ t'.connections)
    (hcustody : ∀ tp, th.custody? = some tp → tp ∈ t'.closed ∨ tp ∈ t'.connections ∨
      ∃ u ∈ ts, u.custody? = some tp)
    (hleaving : ∀ u ∈ ts, ∀ tp, u.leaving? = some tp → tp ∈ t'.closed) :
    Guarded t' (before ++ ts ++ after) where
  held := by
    intro tp htp
    have hnew : (∃ u ∈ ts, u.custody? = some tp) →
        ∃ u ∈ before ++ ts ++ after, u.custody? = some tp := by
      rintro ⟨u, hu, hcustody⟩
      exact ⟨u, by simp [hu], hcustody⟩
    rcases hopened tp htp with hold | hfresh
    · rcases h.held tp hold with hshut | hkept | ⟨u, hu, hhas⟩
      · exact .inl (hclosed hshut)
      · exact (htracked tp hkept).imp_right .inl
      · rcases List.mem_append.mp hu with hu | hu
        · exact .inr (.inr ⟨u, by simp [hu], hhas⟩)
        · rcases List.mem_cons.mp hu with rfl | hu
          · exact (hcustody tp hhas).imp_right (Or.imp_right hnew)
          · exact .inr (.inr ⟨u, by simp [hu], hhas⟩)
    · exact .inr (.inr (hnew hfresh))
  leaving := forall_replace h.leaving (fun _ _ hu tp htp => hclosed (hu tp htp)) hleaving

/-- A step that tracks, opens and closes no connection. -/
theorem same (hclosed : t.closed ⊆ t'.closed)
    (hopened : t'.opened = t.opened) (hconnections : t'.connections = t.connections)
    (hcustody : ∀ tp, th.custody? = some tp → ∃ u ∈ ts, u.custody? = some tp)
    (hleaving : ∀ u ∈ ts, u.leaving? = none) : Guarded t' (before ++ ts ++ after) := by
  refine h.replace hclosed ?_ ?_ ?_ ?_
  · intro tp htp
    exact .inl (hopened ▸ htp)
  · intro tp htp
    exact .inr (hconnections ▸ htp)
  · intro tp htp
    exact .inr (.inr (hcustody tp htp))
  · intro u hu tp htp
    rw [hleaving u hu] at htp
    cases htp

theorem finishWork (hcustody : th.custody? = none) (hleaving : ∀ u ∈ ts, u.leaving? = none) :
    Guarded t.finishWork (before ++ ts ++ after) := by
  have hnone : ∀ tp, th.custody? = some tp → ∃ u ∈ ts, u.custody? = some tp := by
    intro tp htp
    rw [hcustody] at htp
    cases htp
  unfold TCPTransport.finishWork
  split
  · exact h.same (List.Subset.refl _) rfl rfl hnone hleaving
  · exact h.same (List.Subset.refl _) rfl rfl hnone hleaving

/-- A step that removes a closed connection. -/
theorem removes {tp : TCPPeer} (hclosed : tp ∈ t.closed) (hcustody : th.custody? = none)
    (hleaving : ∀ u ∈ ts, u.leaving? = none) :
    Guarded (t.removeConnection tp) (before ++ ts ++ after) := by
  refine h.replace (List.Subset.refl _) (fun _ htp => .inl htp) ?_ ?_ ?_
  · intro tp' htp'
    by_cases heq : tp' = tp
    · exact .inl (heq ▸ hclosed)
    · exact .inr ((List.mem_erase_of_ne heq).mpr htp')
  · intro tp' htp'
    rw [hcustody] at htp'
    cases htp'
  · intro u hu tp' htp'
    rw [hleaving u hu] at htp'
    cases htp'

/-- A step that opens a connection and has it in hand. -/
theorem opens {u : Thread} (remoteAddr : String) (outbound : Bool) (dialTarget : String)
    (hu : u.custody? = some (t.openConn remoteAddr outbound dialTarget).1)
    (hcustody : th.custody? = none) (hleaving : u.leaving? = none) :
    Guarded (t.openConn remoteAddr outbound dialTarget).2 (before ++ [u] ++ after) := by
  refine h.replace (List.Subset.refl _) ?_ (fun _ htp => .inr htp) ?_ ?_
  · intro tp htp
    rcases List.mem_append.mp htp with hold | hnew
    · exact .inl hold
    · rw [List.mem_singleton.mp hnew]
      exact .inr ⟨u, by simp, hu⟩
  · intro tp htp
    rw [hcustody] at htp
    cases htp
  · intro v hv tp htp
    rw [List.mem_singleton.mp hv, hleaving] at htp
    cases htp

/-- A step that tracks the connection in hand. -/
theorem tracks {tp : TCPPeer} (hclosed : t'.closed = t.closed) (hopened : t'.opened = t.opened)
    (hconnections : t'.connections = t.connections.insert tp)
    (hcustody : th.custody? = some tp) (hleaving : ∀ u ∈ ts, u.leaving? = none) :
    Guarded t' (before ++ ts ++ after) := by
  refine h.replace (hclosed ▸ List.Subset.refl _) ?_ ?_ ?_ ?_
  · intro tp' htp'
    exact .inl (hopened ▸ htp')
  · intro tp' htp'
    rw [hconnections]
    exact .inr (List.mem_insert_of_mem htp')
  · intro tp' htp'
    rw [hcustody] at htp'
    cases htp'
    rw [hconnections]
    exact .inr (.inl List.mem_insert_self)
  · intro u hu tp' htp'
    rw [hleaving u hu] at htp'
    cases htp'

/-- The connections stay in hand, unless a serve loop forgets one that is open. -/
theorem step (hperforms : Performs t th t' ts)
    (hkeeps : ∀ tp, th = .serve (.unlisted tp) → tp ∈ t.closed) :
    Guarded t' (before ++ ts ++ after) := by
  have hrefl : t.closed ⊆ t.closed := List.Subset.refl _
  cases hperforms with
  | skip steady =>
    refine h.replace hrefl (fun _ htp => .inl htp) (fun _ htp => .inr htp) ?_ ?_
    · intro tp htp
      exact .inr (.inr ((steady.custody tp htp).resolve_left (by simp)))
    · intro u hu tp htp
      exact absurd (steady.leaves u hu tp htp) (by simp)
  | close tp steady =>
    have hself : tp ∈ (t.closeConn tp).closed := List.mem_insert_self
    refine h.replace (fun _ => List.mem_insert_of_mem) (fun _ htp => .inl htp)
      (fun _ htp => .inr htp) ?_ ?_
    · intro tp' htp'
      rcases steady.custody tp' htp' with heq | hkept
      · cases heq
        exact .inl hself
      · exact .inr (.inr hkept)
    · intro u hu tp' htp'
      cases steady.leaves u hu tp' htp'
      exact hself
  | listen hstart | begin hstart =>
    rw [hstart.eq]
    exact h.same hrefl rfl rfl (by simp) (by simp)
  | accept remoteAddr => exact h.opens remoteAddr false "" rfl rfl rfl
  | dial remoteAddr addr _ => exact h.opens remoteAddr true addr rfl rfl rfl
  | admitted hstart =>
    rw [hstart.eq]
    exact h.tracks rfl rfl rfl rfl (by simp)
  | track tp =>
    exact h.tracks rfl rfl rfl rfl (by simp)
  | register hregisters =>
    obtain ⟨t₁, hstart, heq⟩ := hregisters.eq
    rw [heq, hstart.eq]
    exact h.same hrefl rfl rfl (by simp) (by simp)
  | note tp event notes =>
    refine h.same hrefl rfl rfl ?_ ?_
    · intro tp' htp'
      rw [notes.custody] at htp'
      cases htp'
    · intro u hu
      rw [List.mem_singleton.mp hu]
      exact notes.leaving
  | unregister tp =>
    unfold TCPTransport.unregister
    split
    · exact h.same hrefl rfl rfl (by simp) (by simp)
    · exact h.same hrefl rfl rfl (by simp) (by simp)
  | leave tp result =>
    have hclosed := h.leaving (.handler (.leaving tp result)) (by simp) tp rfl
    exact h.removes hclosed rfl (by simp)
  | unlist tp => exact h.removes (hkeeps tp rfl) rfl (by simp)
  | exit | finish result | served tp => exact h.finishWork rfl (by simp)
  | shutdown s s' same =>
    exact h.same same.closed same.opened same.connections (by simp) (by simp)

end Replace

theorem action {s : System} (h : Guarded s.shared s.threads) {a : Action}
    (hkeeps : s.Keeps a) : Guarded (s.step a).shared (s.step a).threads := by
  cases a with
  | call c => exact h.start (by cases c <;> rfl)
  | run i choice =>
    rcases Pool.run_cases Thread.next s i choice with hsame |
      ⟨before, th, after, t', ts, hsplit, hget, hnext, hrun⟩
    · have hstep : s.step (.run i choice) = s := hsame
      rw [hstep]
      exact h
    · have hstep : s.step (.run i choice) = ⟨t', before ++ ts ++ after⟩ := hrun
      rw [hstep]
      rw [show s.threads = before ++ th :: after from congrArg Pool.threads hsplit] at h
      refine h.step (Thread.next_performs hnext) ?_
      rintro tp rfl
      exact hkeeps tp hget

/-- With no work left, what has not escaped is closed. -/
theorem closed_of_idle (h : Guarded t threads) (haccounted : Accounted t threads)
    (hzero : t.workCount = 0) : ∀ tp ∈ t.opened, tp ∈ t.closed := by
  intro tp htp
  rcases h.held tp htp with hclosed | htracked | ⟨th, hth, hcustody⟩
  · exact hclosed
  · rw [(haccounted.idle hzero).2] at htracked
    cases htracked
  · have hunits : 1 ≤ th.units := by
      cases th with
      | handler h => cases h <;> simp_all
      | _ => simp_all
    have hle := @le_total _ Thread.units th threads hth
    rw [← haccounted.work] at hle
    omega

end Guarded

/-! ## The step that loses a connection -/

/-- A serve loop that forgets its connection leaves it to nobody. -/
theorem Accounted.forgets {t : TCPTransport} {before after : List Thread} {tp : TCPPeer}
    (h : Accounted t (before ++ .serve (.unlisted tp) :: after)) :
    tp ∈ t.opened ∧ tp ∉ (t.removeConnection tp).connections ∧
      ∀ th ∈ before ++ [.serve (.notifying tp)] ++ after, th.custody? ≠ some tp := by
  have hheld := h.held tp
  have hone := h.held_le_one tp
  have hcount := h.tracked tp
  have hbefore := total_mono (mark_tracked_le tp) before
  have hafter := total_mono (mark_tracked_le tp) after
  have hth : mark Thread.peer? tp (.serve (.unlisted tp)) = 1 := mark_self rfl
  have hth' : mark Thread.tracked? tp (.serve (.unlisted tp)) = 1 := mark_self rfl
  simp only [total_append, total_cons, hth] at hheld hone
  simp only [total_append, total_cons, hth'] at hcount
  refine ⟨List.count_pos_iff.mp (by omega), ?_, ?_⟩
  · change tp ∉ t.connections.erase tp
    rw [← List.count_eq_zero, List.count_erase_self]
    omega
  · have hothers : ∀ th ∈ before ++ after, th.peer? ≠ some tp := by
      intro th hmem hpeer
      have hle := @le_total _ (mark Thread.peer? tp) th _ hmem
      rw [mark_self hpeer, total_append] at hle
      omega
    intro th hmem hcustody
    have hpeer : th.peer? = some tp := by
      cases th with
      | handler h => cases h <;> simp_all
      | serve s => cases s <;> simp_all
      | _ => simp_all
    rcases List.mem_append.mp hmem with hmem | hmem
    · rcases List.mem_append.mp hmem with hmem | hmem
      · exact hothers th (List.mem_append_left _ hmem) hpeer
      · rw [List.mem_singleton.mp hmem] at hcustody
        cases hcustody
    · exact hothers th (List.mem_append_right _ hmem) hpeer

/-! ## Runs -/

/-- A step that breaks the condition loses a connection. -/
theorem System.escapes {s : System} (h : Accounted s.shared s.threads) {a : Action}
    (hbreaks : ¬ s.Keeps a) : ¬ (s.step a).NoEscape := by
  cases a with
  | call c => exact absurd trivial hbreaks
  | run i choice =>
    have hlost : ∃ tp, s.threads[i]? = some (.serve (.unlisted tp)) ∧
        tp ∉ s.shared.closed := by
      simpa [System.Keeps] using hbreaks
    obtain ⟨tp, hget, hclosed⟩ := hlost
    have hnext : Thread.next choice s.shared (.serve (.unlisted tp)) =
        some (s.shared.removeConnection tp, [.serve (.notifying tp)]) := rfl
    obtain ⟨before, after, hsplit, hrun⟩ := Pool.run_of_next hget hnext
    have hstep : s.step (.run i choice) = ⟨s.shared.removeConnection tp,
      before ++ [.serve (.notifying tp)] ++ after⟩ := hrun
    rw [show s.threads = before ++ .serve (.unlisted tp) :: after
      from congrArg Pool.threads hsplit] at h
    obtain ⟨hopened, hconnections, hcustody⟩ := h.forgets
    rw [hstep]
    intro hno
    rcases hno tp hopened with hmem | hmem | ⟨th, hth, hmem⟩
    · exact hclosed hmem
    · exact hconnections hmem
    · exact hcustody th hth hmem

/-- No socket escapes in a run, and none is open after a shutdown that is complete, if
and only if every serve loop forgets its connection only after the transport has closed
it. -/
theorem no_socket_escapes_iff (maxPeers : Int) (actions : List Action) :
    (∀ before, before <+: actions →
      (System.after maxPeers before).NoEscape ∧ (System.after maxPeers before).AllClosed) ↔
    Transition.Along System.step System.Keeps (.new maxPeers) actions := by
  constructor
  · intro h
    by_contra hbreaks
    obtain ⟨before, a, rest, hsplit, hbad⟩ := Transition.exists_of_not_along hbreaks
    have hprefix : before ++ [a] <+: actions := ⟨rest, by simp [hsplit]⟩
    have hrun : System.after maxPeers (before ++ [a]) =
        (System.after maxPeers before).step a := Transition.run_append _ _ _
    have hno := (h _ hprefix).1
    rw [hrun] at hno
    exact System.escapes (Sound.run maxPeers before).accounted hbad hno
  · rintro h before ⟨rest, rfl⟩
    have hguarded : Guarded (System.after maxPeers before).shared
        (System.after maxPeers before).threads :=
      Transition.run_invariant (I := fun s : System => Guarded s.shared s.threads)
        (fun _ _ hkeeps hs => hs.action hkeeps) (Transition.Along.append_iff.mp h).1
        (.new maxPeers)
    exact ⟨hguarded.held, fun _ hzero =>
      hguarded.closed_of_idle (Sound.run maxPeers before).accounted hzero⟩

/-- A connection is accepted and registered, then its serve loop ends, as after an error
of the frame handler. -/
def Sample.forgotten : List Action :=
  [.call .listenAndAccept, .run 0 .proceed, .run 0 .proceed,
    .run 0 (.connect "10.0.0.2:40000"), .run 0 .proceed, .run 1 .proceed, .run 1 .proceed,
    .run 1 .proceed, .run 1 .proceed, .run 1 .proceed, .run 2 .proceed, .run 2 .proceed,
    .run 2 .proceed]

/-- All work finishes, and `Drain` returns in time. -/
def Sample.drainedAfter : List Action :=
  Sample.forgotten ++ [.run 2 .proceed, .run 2 .proceed, .call .drain, .run 3 .proceed,
    .run 3 .proceed, .run 3 .proceed, .run 3 .proceed, .run 0 .proceed, .run 0 .proceed,
    .run 2 .proceed, .run 2 .proceed, .run 2 .proceed]

/-- The connection is forgotten while it is open, and it is still open after `Drain`. -/
theorem socket_escapes :
    ¬ (System.after 0 Sample.forgotten).NoEscape ∧
      (System.after 0 Sample.drainedAfter).shared.finished = true ∧
      (System.after 0 Sample.drainedAfter).shared.workCount = 0 ∧
      (System.after 0 Sample.drainedAfter).shared.opened =
        [⟨0, "10.0.0.2:40000", false, ""⟩] ∧
      (System.after 0 Sample.drainedAfter).shared.closed = [] := by
  decide +kernel

end StreamHive.Transport
