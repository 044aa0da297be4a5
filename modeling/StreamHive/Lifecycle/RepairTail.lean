import StreamHive.Lifecycle.RepairSteps

/-!
# How far a completed run gets

`Run` returns when a plan without more to come has been acknowledged.  For a batch
this is the tail of the journal.  The plan that sends the checkpoint to a peer
behind the floor also says that there is no more, although the retained records
were not sent, so a run that starts behind the floor ends at the floor.

## Main results

* `run_reaches_tail` — a completed run whose frames were all acknowledged ends at
  the last version if and only if it never planned from behind the floor, or the
  journal retains no record;
* `run_stops_at_floor` — a run that ends at the floor.
-/

namespace StreamHive.Lifecycle

open Verified ByteString Effect Log Transition

/-- A session before `Run`; nothing is known of the peer beyond the journal. -/
structure RunState.Begins (r : RunState) : Prop where
  start : r.run = .start
  idle : r.reader = .idle
  past : r.past = RunHistory.empty
  known : r.conn.watermark ≤ r.conn.node.journal.lastVersion

/-! ## The watermark and the acknowledgements -/

/-- The watermark lies in the journal; once something was acknowledged, it is the
last version acknowledged.  A report is recorded only before the first
acknowledgement. -/
structure Acknowledged (last : Version) (reconciles : Bool) (reader : ReaderPhase)
    (hello : Bool) (w : Version) (acked : List Version) : Prop where
  bounded : w ≤ last
  pending : ∀ v, reader = .recording v ∨ reader = .acknowledging v → v ≤ last
  below : ∀ a ∈ acked, a ≤ w
  exact : (∃ a ∈ acked, ¬ a.IsZero) → w ∈ acked
  reporting : reader.report? ≠ none → acked = []
  accepting : ∀ v, reader = .accepting v → reconciles = true
  greeting : reconciles = true → hello = false → acked = [] ∧
    (reader = .idle ∨ (∃ v, reader = .accepting v) ∨ ∃ e, reader = .failed e)

namespace Acknowledged

variable {last : Version} {reconciles hello : Bool} {reader : ReaderPhase} {w v : Version}
  {acked : List Version}

theorem start (hw : w ≤ last) : Acknowledged last reconciles .idle hello w [] where
  bounded := hw
  pending := by
    intro v hno
    rcases hno with hno | hno <;> cases hno
  below := nofun
  exact := fun ⟨_, hno, _⟩ => by cases hno
  reporting := fun _ => rfl
  accepting := nofun
  greeting := fun _ _ => ⟨rfl, .inl rfl⟩

/-- The reader goes on to a phase in which it is not about to record anything. -/
theorem goto (h : Acknowledged last reconciles reader hello w acked) {phase : ReaderPhase}
    (hpending : ∀ v, phase ≠ .recording v ∧ phase ≠ .acknowledging v)
    (hreport : phase.report? ≠ none → acked = [])
    (haccepting : ∀ v, phase = .accepting v → reconciles = true)
    (hgreeting : reconciles = true → hello = false →
      phase = .idle ∨ (∃ v, phase = .accepting v) ∨ ∃ e, phase = .failed e) :
    Acknowledged last reconciles phase hello w acked where
  bounded := h.bounded
  pending := fun v hv => by
    rcases hv with hv | hv
    · exact absurd hv (hpending v).1
    · exact absurd hv (hpending v).2
  below := h.below
  exact := h.exact
  reporting := hreport
  accepting := haccepting
  greeting := fun hr hh => ⟨(h.greeting hr hh).1, hgreeting hr hh⟩

end Acknowledged

/-- The version that an acknowledgement moves the watermark to. -/
theorem max_mem_acked {w v : Version} {acked : List Version}
    (hexact : (∃ a ∈ acked, ¬ a.IsZero) → w ∈ acked) (hforward : v.IsZero ∨ w ≤ v)
    (h : ∃ a ∈ acked ++ [v], ¬ a.IsZero) : max w v ∈ acked ++ [v] := by
  by_cases hzero : v.IsZero
  · have hle : v ≤ w := by
      rw [show v = Version.zero from hzero]
      exact Version.zero_le w
    rw [max_eq_left hle]
    obtain ⟨u, hu, hne⟩ := h
    rcases List.mem_append.mp hu with hu | hu
    · exact List.mem_append_left _ (hexact ⟨u, hu, hne⟩)
    · rw [List.mem_singleton.mp hu] at hne
      exact absurd hzero hne
  · rw [max_eq_right (hforward.resolve_left hzero)]
    exact List.mem_append_right _ (List.mem_singleton_self v)

/-- A step of the reader. -/
theorem Acknowledged.step {Brings : Version → Prop} {r : RunState} {reader : ReaderPhase}
    {hello recorded : Bool} {w : Version} {acked : List Version}
    (h : Acknowledged r.conn.node.journal.lastVersion r.conn.session.reconcilePeer r.reader
      r.conn.session.helloReceived r.conn.watermark r.past.acked)
    (hmoves : ReaderMoves Brings r reader hello w recorded acked) :
    Acknowledged r.conn.node.journal.lastVersion r.conn.session.reconcilePeer reader hello w
      acked := by
  have hserving : ∀ {p : ReaderPhase}, r.reader = p → p ≠ .idle → (∀ v, p ≠ .accepting v) →
      (∀ e, p ≠ .failed e) → r.conn.session.reconcilePeer = true →
      r.conn.session.helloReceived ≠ false := by
    intro p hp hidle hacc hfail hr hh
    rcases (h.greeting hr hh).2 with hno | ⟨v, hno⟩ | ⟨e, hno⟩
    · exact hidle (hp.symm.trans hno)
    · exact hacc v (hp.symm.trans hno)
    · exact hfail e (hp.symm.trans hno)
  cases hmoves with
  | stay => exact h
  | fail e =>
    exact h.goto (fun v => ⟨nofun, nofun⟩) (fun hno => absurd rfl hno) nofun
      fun _ _ => .inr (.inr ⟨e, rfl⟩)
  | @frame u _ _ hpeer =>
    exact h.goto (fun v => ⟨nofun, nofun⟩) (fun hno => absurd rfl hno) (fun _ _ => hpeer)
      fun _ _ => .inr (.inl ⟨u, rfl⟩)
  | ack _ _ hpeer =>
    exact h.goto (fun v => ⟨nofun, nofun⟩) (fun hno => absurd rfl hno) nofun
      fun hr _ => absurd (hr.symm.trans hpeer) nofun
  | later hreader hhello =>
    rw [hhello] at h
    exact h.goto (fun v => ⟨nofun, nofun⟩) (fun hno => absurd rfl hno) nofun nofun
  | @first u hreader hhello =>
    obtain ⟨hnone, _⟩ := h.greeting (h.accepting u hreader) hhello
    refine ⟨h.bounded, fun v hv => ?_, h.below, h.exact, fun _ => hnone, nofun, nofun⟩
    rcases hv with hv | hv <;> cases hv
  | empty hreader _ | signal hreader =>
    exact h.goto (fun v => ⟨nofun, nofun⟩) (fun hno => absurd rfl hno) nofun
      fun _ _ => .inl rfl
  | report hreader =>
    have hnone := h.reporting (by rw [hreader]; exact nofun)
    exact h.goto (fun v => ⟨nofun, nofun⟩) (fun _ => hnone) nofun
      fun hr hh => absurd hh (hserving hreader nofun nofun nofun hr)
  | @allowReport u hreader hlast =>
    have hnone := h.reporting (by rw [hreader]; exact nofun)
    refine ⟨h.bounded, fun v hv => ?_, h.below, h.exact, fun _ => hnone, nofun,
      fun hr hh => absurd hh (hserving hreader nofun nofun nofun hr)⟩
    rcases hv with hv | hv <;> cases hv
    exact hlast
  | record hreader =>
    have hnone := h.reporting (by rw [hreader]; exact nofun)
    rw [hnone]
    exact Acknowledged.start (h.pending w (.inl hreader))
  | @allowAck u hreader hlast =>
    refine ⟨h.bounded, fun v hv => ?_, h.below, h.exact, fun hno => absurd rfl hno, nofun,
      fun hr hh => absurd hh (hserving hreader nofun nofun nofun hr)⟩
    rcases hv with hv | hv <;> cases hv
    exact hlast
  | @acknowledge u hreader hforward =>
    refine ⟨max_le h.bounded (h.pending u (.inr hreader)), fun v hv => ?_, fun a ha => ?_,
      max_mem_acked h.exact hforward, fun hno => absurd rfl hno, nofun,
      fun hr hh => absurd hh (hserving hreader nofun nofun nofun hr)⟩
    · rcases hv with hv | hv <;> cases hv
    · rcases List.mem_append.mp ha with ha | ha
      · exact le_max_of_le_left (h.below a ha)
      · rw [List.mem_singleton.mp ha]
        exact le_max_right _ _

/-! ## The plans of a run -/

/-- A plan made from a watermark that lies in the journal. -/
def PlannedFrom (S : Stdlib) (limits : RepairLimits) (journal : Journal)
    (snapshot : Option Checkpoint) (w : Version) (plan : RepairPlan) : Prop :=
  w ≤ journal.lastVersion ∧ Planned S limits journal w snapshot plan

section Plans

variable {S : Stdlib} {limits : RepairLimits} {journal : Journal}
  {snapshot : Option Checkpoint} {w : Version} {plan : RepairPlan}

/-- A plan that is not the last one ends before the tail. -/
theorem PlannedFrom.before_tail (h : PlannedFrom S limits journal snapshot w plan)
    (hmore : plan.more = true) : plan.to_ < journal.lastVersion := by
  obtain ⟨hlast, hplan⟩ := h
  cases hplan with
  | snapshot => cases hmore
  | journal n hfloor _ _ =>
    have hn : n < (after Record.version w journal.records).length := of_decide_eq_true hmore
    have hcut : lastVersion Record.version w (after Record.version w journal.records) =
        journal.lastVersion := by
      rw [← journal.log.records_cut]
      exact journal.log.last_cut hfloor hlast
    rw [← hcut]
    exact lastVersion_take_lt (journal.log.ascending.after w)
      (fun r hr => (mem_after.mp hr).2) hn

/-- A last plan from the floor or above ends at the tail. -/
theorem PlannedFrom.at_tail (h : PlannedFrom S limits journal snapshot w plan)
    (hmore : plan.more = false) (hfloor : journal.floor ≤ w) :
    plan.to_ = journal.lastVersion := by
  obtain ⟨hlast, hplan⟩ := h
  cases hplan with
  | snapshot _ _ hbehind => exact absurd hfloor (not_le.mpr hbehind)
  | journal n _ _ _ =>
    have hn : (after Record.version w journal.records).length ≤ n :=
      not_lt.mp (of_decide_eq_false hmore)
    show lastVersion Record.version w ((after Record.version w journal.records).take n) = _
    rw [List.take_of_length_le hn, ← journal.log.records_cut]
    exact journal.log.last_cut hfloor hlast

/-- A plan from behind the floor is the last one, and ends at the floor. -/
theorem PlannedFrom.at_floor (h : PlannedFrom S limits journal snapshot w plan)
    (hbehind : w < journal.floor) : plan.more = false ∧ plan.to_ = journal.floor := by
  cases h.2 with
  | snapshot => exact ⟨rfl, rfl⟩
  | journal _ hfloor _ _ => exact absurd hfloor (not_le.mpr hbehind)

end Plans

/-- The phases outside the plan at hand. -/
def RunPhase.Between : RunPhase → Prop
  | .planning _ | .writing _ | .awaiting _ | .blocked _ | .returned | .failed _ => False
  | _ => True

/-- The plans sent so far, made from the watermarks read so far; all but the last say
that more is to come. -/
inductive PlanStage (last : Version) (P : Version → RepairPlan → Prop) :
    RunPhase → List Version → List RepairPlan → Prop
  | between {phase : RunPhase} {planned : List Version} {sent : List RepairPlan}
      (hphase : phase.Between) (hplans : List.Forall₂ P planned sent)
      (hmore : ∀ p ∈ sent, p.more = true) : PlanStage last P phase planned sent
  | planning {w : Version} {planned : List Version} {sent : List RepairPlan}
      (hw : w ≤ last) (hplans : List.Forall₂ P planned sent)
      (hmore : ∀ p ∈ sent, p.more = true) :
      PlanStage last P (.planning w) (planned ++ [w]) sent
  | writing {w : Version} {plan : RepairPlan} {planned : List Version}
      {sent : List RepairPlan} (hplan : P w plan) (hplans : List.Forall₂ P planned sent)
      (hmore : ∀ p ∈ sent, p.more = true) :
      PlanStage last P (.writing plan) (planned ++ [w]) sent
  | waiting {phase : RunPhase} {plan : RepairPlan} {planned : List Version}
      {sent : List RepairPlan} (hphase : phase = .awaiting plan ∨ phase = .blocked plan)
      (hplans : List.Forall₂ P planned (sent ++ [plan]))
      (hmore : ∀ p ∈ sent, p.more = true) : PlanStage last P phase planned (sent ++ [plan])
  | returned {plan : RepairPlan} {planned : List Version} {sent : List RepairPlan}
      (hplans : List.Forall₂ P planned (sent ++ [plan]))
      (hmore : ∀ p ∈ sent, p.more = true) (hlast : plan.more = false) :
      PlanStage last P .returned planned (sent ++ [plan])
  | failed {planned : List Version} {sent : List RepairPlan} (e : Error) :
      PlanStage last P (.failed e) planned sent

namespace PlanStage

variable {last : Version} {P : Version → RepairPlan → Prop} {phase : RunPhase}
  {planned : List Version} {sent : List RepairPlan} {plan : RepairPlan}

/-- A plan has been acknowledged. -/
theorem settled (hplans : List.Forall₂ P planned (sent ++ [plan]))
    (hmore : ∀ p ∈ sent, p.more = true) :
    PlanStage last P plan.settled planned (sent ++ [plan]) := by
  unfold RepairPlan.settled
  cases hlast : plan.more with
  | false => exact .returned hplans hmore hlast
  | true =>
    refine .between trivial hplans fun p hp => ?_
    rcases List.mem_append.mp hp with hp | hp
    · exact hmore p hp
    · rw [List.mem_singleton.mp hp]
      exact hlast

theorem written (hplans : List.Forall₂ P planned (sent ++ [plan]))
    (hmore : ∀ p ∈ sent, p.more = true) :
    PlanStage last P plan.written planned (sent ++ [plan]) := by
  unfold RepairPlan.written
  split
  · exact .waiting (.inl rfl) hplans hmore
  · exact settled hplans hmore

theorem of_between (h : PlanStage last P phase planned sent) (hphase : phase.Between) :
    List.Forall₂ P planned sent ∧ ∀ p ∈ sent, p.more = true := by
  cases h with
  | between _ hplans hmore => exact ⟨hplans, hmore⟩
  | planning | writing | returned | failed => exact absurd hphase id
  | waiting hwaits => rcases hwaits with rfl | rfl <;> exact absurd hphase id

theorem of_planning {w : Version} (h : PlanStage last P (.planning w) planned sent) :
    ∃ before, planned = before ++ [w] ∧ w ≤ last ∧ List.Forall₂ P before sent ∧
      ∀ p ∈ sent, p.more = true := by
  cases h with
  | between hphase => exact absurd hphase id
  | planning hw hplans hmore => exact ⟨_, rfl, hw, hplans, hmore⟩
  | waiting hwaits => rcases hwaits with hno | hno <;> cases hno

theorem of_writing (h : PlanStage last P (.writing plan) planned sent) :
    ∃ before w, planned = before ++ [w] ∧ P w plan ∧ List.Forall₂ P before sent ∧
      ∀ p ∈ sent, p.more = true := by
  cases h with
  | between hphase => exact absurd hphase id
  | writing hplan hplans hmore => exact ⟨_, _, rfl, hplan, hplans, hmore⟩
  | waiting hwaits => rcases hwaits with hno | hno <;> cases hno

theorem of_waiting (h : PlanStage last P phase planned sent)
    (hphase : phase = .awaiting plan ∨ phase = .blocked plan) :
    ∃ before, sent = before ++ [plan] ∧ List.Forall₂ P planned (before ++ [plan]) ∧
      ∀ p ∈ before, p.more = true := by
  cases h with
  | between hno => rcases hphase with rfl | rfl <;> exact absurd hno id
  | planning | writing | returned | failed => rcases hphase with hno | hno <;> cases hno
  | waiting hwaits hplans hmore =>
    rcases hwaits with rfl | rfl <;> rcases hphase with heq | heq <;> cases heq <;>
      exact ⟨_, rfl, hplans, hmore⟩

theorem of_returned (h : PlanStage last P .returned planned sent) :
    ∃ before plan, sent = before ++ [plan] ∧ List.Forall₂ P planned (before ++ [plan]) ∧
      (∀ p ∈ before, p.more = true) ∧ plan.more = false := by
  cases h with
  | between hphase => exact absurd hphase id
  | waiting hwaits => rcases hwaits with hno | hno <;> cases hno
  | returned hplans hmore hlast => exact ⟨_, _, rfl, hplans, hmore, hlast⟩

/-- A step of `Run`. -/
theorem step {S : Stdlib} {r : RunState} {past : RunHistory}
    (h : PlanStage r.conn.node.journal.lastVersion (PlannedFrom S r.conn.node.repairLimits
      r.conn.node.journal r.conn.session.snapshot) r.run r.past.planned r.past.sent)
    (hw : r.conn.watermark ≤ r.conn.node.journal.lastVersion)
    (hadvanced : Advanced S r phase past) :
    PlanStage r.conn.node.journal.lastVersion (PlannedFrom S r.conn.node.repairLimits
      r.conn.node.journal r.conn.session.snapshot) phase past.planned past.sent := by
  -- from one phase between two plans to another
  have hgoto : ∀ {p phase : RunPhase}, r.run = p → p.Between → phase.Between →
      PlanStage r.conn.node.journal.lastVersion (PlannedFrom S r.conn.node.repairLimits
        r.conn.node.journal r.conn.session.snapshot) phase r.past.planned r.past.sent := by
    intro p phase hp hbefore hafter
    rw [hp] at h
    obtain ⟨hplans, hmore⟩ := h.of_between hbefore
    exact .between hafter hplans hmore
  have hearly : ∀ {p : RunPhase}, p.Early → p.Between := by
    intro p hp
    cases p <;> trivial
  cases hadvanced with
  | stay => exact h
  | fail e | writeFails e _ => exact .failed e
  | early hbefore hafter => exact hgoto rfl (hearly hbefore) (hearly hafter)
  | skip hrun _ | list hrun | mark hrun | behind hrun _ | select hrun _ | collect hrun
  | load _ hrun | send hrun | confirmed hrun | blobAcked hrun | resend hrun | synced hrun
  | ready hrun => exact hgoto hrun trivial trivial
  | read hrun =>
    rw [hrun] at h
    obtain ⟨hplans, hmore⟩ := h.of_between trivial
    exact .planning hw hplans hmore
  | plan hrun hplan =>
    rw [hrun] at h
    obtain ⟨before, hplanned, hlast, hplans, hmore⟩ := h.of_planning
    rw [hplanned]
    exact .writing ⟨hlast, hplan⟩ hplans hmore
  | write hrun =>
    rw [hrun] at h
    obtain ⟨before, w, hplanned, hplan, hplans, hmore⟩ := h.of_writing
    have hnew : List.Forall₂ _ (before ++ [w]) (r.past.sent ++ [_]) :=
      List.rel_append hplans (.cons hplan .nil)
    rw [← hplanned] at hnew
    exact written hnew hmore
  | settle hrun _ =>
    obtain ⟨before, hsent, hplans, hmore⟩ := h.of_waiting (.inl hrun)
    rw [hsent]
    exact settled hplans hmore
  | block hrun =>
    obtain ⟨before, hsent, hplans, hmore⟩ := h.of_waiting (.inl hrun)
    rw [hsent]
    exact .waiting (.inr rfl) hplans hmore
  | wake hrun =>
    obtain ⟨before, hsent, hplans, hmore⟩ := h.of_waiting (.inr hrun)
    rw [hsent]
    exact .waiting (.inl rfl) hplans hmore

end PlanStage

/-! ## Whole runs -/

/-- What holds in every run of a session that receives only acknowledgements. -/
structure Underway (S : Stdlib) (start r : RunState) : Prop where
  limits : r.conn.node.repairLimits = start.conn.node.repairLimits
  journal : r.conn.node.journal = start.conn.node.journal
  snapshot : r.conn.session.snapshot = start.conn.session.snapshot
  acknowledged : Acknowledged r.conn.node.journal.lastVersion r.conn.session.reconcilePeer
    r.reader r.conn.session.helloReceived r.conn.watermark r.past.acked
  plans : PlanStage r.conn.node.journal.lastVersion (PlannedFrom S r.conn.node.repairLimits
    r.conn.node.journal r.conn.session.snapshot) r.run r.past.planned r.past.sent

section

variable {S : Stdlib} {start r : RunState} {a : RunAction}

theorem RunState.Begins.underway (h : start.Begins) : Underway S start start where
  limits := rfl
  journal := rfl
  snapshot := rfl
  acknowledged := by
    rw [h.idle, h.past]
    exact Acknowledged.start h.known
  plans := by
    rw [h.start, h.past]
    exact .between trivial .nil nofun

theorem Underway.step (hS : S.Lawful) (h : Underway S start r) (ha : a.OfSession S) :
    Underway S start (r.step S a) := by
  rcases RunState.step_cases hS r ha with ⟨hkept, hadvanced⟩ | ⟨hserved, hmoves⟩
  · have hmark : (r.step S a).conn.watermark = r.conn.watermark := by
      unfold SessionState.watermark
      rw [hkept.node, hkept.session]
    constructor
    · rw [hkept.node]
      exact h.limits
    · rw [hkept.node]
      exact h.journal
    · rw [hkept.session]
      exact h.snapshot
    · rw [hkept.node, hkept.session, hkept.reader, hkept.acked, hmark]
      exact h.acknowledged
    · rw [hkept.node, hkept.session]
      exact h.plans.step h.acknowledged.bounded hadvanced
  · have hsession : (r.step S a).conn.session.reconcilePeer =
        r.conn.session.reconcilePeer := by
      rw [hserved.session]
    have hsnapshot : (r.step S a).conn.session.snapshot = r.conn.session.snapshot := by
      rw [hserved.session]
    constructor
    · rw [hserved.limits]
      exact h.limits
    · rw [hserved.journal]
      exact h.journal
    · rw [hsnapshot]
      exact h.snapshot
    · rw [hserved.journal, hsession]
      exact h.acknowledged.step hmoves
    · rw [hserved.journal, hserved.limits, hsnapshot, hserved.run, hserved.past]
      exact h.plans

end

theorem exists_mem_of_forall₂ {α β : Type} {R : α → β → Prop} {as : List α} {bs : List β}
    (h : List.Forall₂ R as bs) {a : α} (ha : a ∈ as) : ∃ b ∈ bs, R a b := by
  induction h with
  | nil => cases ha
  | cons hab _ ih =>
    rcases List.mem_cons.mp ha with rfl | ha
    · exact ⟨_, List.mem_cons_self .., hab⟩
    · obtain ⟨b, hb, hab⟩ := ih ha
      exact ⟨b, List.mem_cons_of_mem _ hb, hab⟩

/-- A run that has returned, and all of whose frames were acknowledged by the peer at
the end of their plan, has reached the last version of the journal if and only if it
never planned from behind the floor, or the journal retains no record. -/
theorem run_reaches_tail {S : Stdlib} (hS : S.Lawful) {start : RunState}
    (hstart : start.Begins) (actions : List RunAction)
    (hactions : ∀ a ∈ actions, a.OfSession S)
    (hreturned : (start.steps S actions).run = .returned)
    (hacked : ∀ plan ∈ (start.steps S actions).past.sent,
      plan.to_ ∈ (start.steps S actions).past.acked)
    (honly : ∀ v ∈ (start.steps S actions).past.acked,
      ∃ plan ∈ (start.steps S actions).past.sent, plan.to_ = v) :
    (start.steps S actions).conn.watermark = start.conn.node.journal.lastVersion ↔
      (∀ w ∈ (start.steps S actions).past.planned, start.conn.node.journal.floor ≤ w) ∨
        start.conn.node.journal.records = [] := by
  have hinv : Underway S start (start.steps S actions) :=
    run_invariant (P := fun _ a => a.OfSession S) (fun r a ha hr => hr.step hS ha)
      (along_of_forall fun a ha _ => hactions a ha) hstart.underway
  generalize start.steps S actions = r at *
  obtain ⟨_, hjournal, _, hbook, hplans⟩ := hinv
  rw [← hjournal]
  rw [hreturned] at hplans
  obtain ⟨before, plan, hsent, hplans, hmore, hlast⟩ := hplans.of_returned
  rw [hsent] at hacked honly
  have hplan : plan ∈ before ++ [plan] := by simp
  obtain ⟨w, hw, hfrom⟩ : ∃ w ∈ r.past.planned, PlannedFrom S r.conn.node.repairLimits
      r.conn.node.journal r.conn.session.snapshot w plan :=
    exists_mem_of_forall₂ (List.Forall₂.flip hplans) hplan
  constructor
  · intro hreached
    by_contra hno
    rw [not_or] at hno
    obtain ⟨hfloor, hrecords⟩ := hno
    push Not at hfloor
    obtain ⟨u, hu, hbehind⟩ := hfloor
    have htail : r.conn.node.journal.floor < r.conn.node.journal.lastVersion :=
      base_lt_lastVersion r.conn.node.journal.log.above hrecords
    -- the plan from behind the floor is the last one
    obtain ⟨p, hp, hpu⟩ := exists_mem_of_forall₂ hplans hu
    obtain ⟨hpmore, hpto⟩ := hpu.at_floor hbehind
    have hpplan : p = plan := by
      rcases List.mem_append.mp hp with hp | hp
      · exact absurd (hpmore.symm.trans (hmore p hp)) nofun
      · exact List.mem_singleton.mp hp
    have hends : ∀ q ∈ before ++ [plan], q.to_ ≠ r.conn.node.journal.lastVersion := by
      intro q hq
      rcases List.mem_append.mp hq with hbefore | hlastq
      · obtain ⟨_, _, hqfrom⟩ := exists_mem_of_forall₂ (List.Forall₂.flip hplans) hq
        exact ne_of_lt (PlannedFrom.before_tail hqfrom (hmore q hbefore))
      · rw [List.mem_singleton.mp hlastq, ← hpplan, hpto]
        exact ne_of_lt htail
    have hzero : ¬ p.to_.IsZero := by
      rw [hpto]
      exact Version.not_isZero_of_lt hbehind
    obtain ⟨q, hq, hqw⟩ := honly _ (hbook.exact ⟨p.to_, hacked p hp, hzero⟩)
    exact hends q hq (hqw.trans hreached)
  · intro hcond
    have hto : plan.to_ = r.conn.node.journal.lastVersion := by
      by_cases hfloor : r.conn.node.journal.floor ≤ w
      · exact hfrom.at_tail hlast hfloor
      · have hempty := hcond.resolve_left fun hall => hfloor (hall w hw)
        rw [(hfrom.at_floor (not_le.mp hfloor)).2]
        show _ = lastVersion Record.version r.conn.node.journal.floor r.conn.node.journal.records
        rw [hempty]
        rfl
    exact le_antisymm hbook.bounded (hto ▸ hbook.below _ (hacked plan hplan))

/-! ## A run that stops at the floor -/

namespace Sample

/-- A journal that retains the second record, and the checkpoint of the first. -/
def compacted : OnDisk Journal :=
  finalState (Journal.compact goStdlib Faults.none compactFirst twoRecords)

/-- A session with a peer that has nothing yet. -/
def beginning (disk : OnDisk Journal) (snapshot : Option Checkpoint) : RunState where
  conn :=
    { node :=
        { fs := disk.fs
          journal := disk.obj
          store := ⟨Limits.unset.normalized, tableOf [first, second]⟩
          blobs := some fun _ => none
          limits := Limits.unset.normalized
          watermarks := WatermarkBook.new "watermarks" ⟨0, 0, 0⟩
          repairLimits := RepairLimits.unset.normalized }
      session := ⟨ascii "b", [lifecycleCapabilityV1], snapshot, "checkpoint",
        defaultMaxRepairFrameBytes, false, false⟩
      outbox := [] }
  checkpoint := snapshot
  raw := ⟨false, ⟨0, 0, 0, 0⟩, 0, 0⟩
  helloNotify := false
  ackNotify := false
  run := .start
  reader := .idle
  past := RunHistory.empty

/-- The peer is behind the floor. -/
def behindFloor : RunState := beginning compacted (some ⟨first.version, [first]⟩)

/-- Nothing has been compacted. -/
def uncompacted : RunState := beginning twoRecords none

theorem beginning_begins (disk : OnDisk Journal) (snapshot : Option Checkpoint) :
    (beginning disk snapshot).Begins where
  start := rfl
  idle := rfl
  past := rfl
  known := Version.zero_le _

/-- `Run` sends one frame, the peer acknowledges a version, and `Run` goes on. -/
def oneFrame (v : Version) : List RunAction :=
  List.replicate 6 (.run Faults.none) ++
    [.receive Faults.none (ackPayload goStdlib v)] ++
    List.replicate 3 (.handle Faults.none) ++ [.run Faults.none]

theorem oneFrame_ofSession (v : Version) : ∀ a ∈ oneFrame v, a.OfSession goStdlib := by
  simp only [oneFrame, List.forall_mem_append, List.forall_mem_cons,
    List.forall_mem_replicate, RunAction.OfSession]
  simp

/-- The checkpoint is acknowledged. -/
def ranToFloor : RunState := behindFloor.steps goStdlib (oneFrame first.version)

/-- The batch of both records is acknowledged. -/
def ranToTail : RunState := uncompacted.steps goStdlib (oneFrame second.version)

end Sample

/-- The checkpoint was sent and acknowledged and `Run` has returned, but the second
record was never sent. -/
theorem run_stops_at_floor :
    Sample.behindFloor.Begins ∧
      (∀ a ∈ Sample.oneFrame Sample.first.version, a.OfSession goStdlib) ∧
      Sample.ranToFloor.run = .returned ∧
      (∀ plan ∈ Sample.ranToFloor.past.sent, plan.to_ ∈ Sample.ranToFloor.past.acked) ∧
      (∀ v ∈ Sample.ranToFloor.past.acked,
        ∃ plan ∈ Sample.ranToFloor.past.sent, plan.to_ = v) ∧
      Sample.ranToFloor.conn.watermark ≠ Sample.behindFloor.conn.node.journal.lastVersion :=
  ⟨Sample.beginning_begins _ _, Sample.oneFrame_ofSession _, by decide +kernel⟩

theorem run_reaches_tail_sample :
    Sample.ranToTail.run = .returned ∧
      Sample.ranToTail.conn.watermark = Sample.uncompacted.conn.node.journal.lastVersion := by
  have hrun : Sample.ranToTail.run = .returned ∧
      (∀ plan ∈ Sample.ranToTail.past.sent, plan.to_ ∈ Sample.ranToTail.past.acked) ∧
      (∀ v ∈ Sample.ranToTail.past.acked,
        ∃ plan ∈ Sample.ranToTail.past.sent, plan.to_ = v) ∧
      ∀ w ∈ Sample.ranToTail.past.planned,
        Sample.uncompacted.conn.node.journal.floor ≤ w := by decide +kernel
  obtain ⟨hreturned, hacked, honly, hfloor⟩ := hrun
  have hbegins : Sample.uncompacted.Begins := Sample.beginning_begins _ _
  unfold Sample.ranToTail at hreturned hacked honly hfloor ⊢
  exact ⟨hreturned, (run_reaches_tail goStdlib_lawful hbegins
    (Sample.oneFrame Sample.second.version) (Sample.oneFrame_ofSession _) hreturned hacked
    honly).mpr (.inl hfloor)⟩

end StreamHive.Lifecycle
