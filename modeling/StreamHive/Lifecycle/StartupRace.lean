import StreamHive.Lifecycle.Reconcile
import StreamHive.Lifecycle.RepairSteps

/-!
# Planning and the peer's report

A reconciling session waits for the peer's report before it plans.
`acceptStartupWatermark` wakes `Run` as soon as the report has been accepted, and
only then does `Handle` call `Reconcile`, which writes the watermark file.  In
between, and for good when the write fails, `Run` plans from the watermark that was
stored before.

## Main results

* `watermarks_used_after_report` — when `Run` reads the watermark only after the
  report was recorded, it uses the report or a later acknowledgement; in every
  other run it uses the stored watermark.
* `plans_before_report` — such a run, which sends a batch although the report could
  not be recorded.
-/

namespace StreamHive.Lifecycle

open Verified ByteString Effect Transition

/-! ## Reading the watermark -/

/-- The watermarks that `beforeRepair` and the plans have used. -/
def RunHistory.used (h : RunHistory) : List Version := h.preflight ++ h.planned

namespace RunState

/-- The next step of `Run` reads the watermark for the preflight or for a plan. -/
def ReadsWatermark (r : RunState) : Prop :=
  r.run = .reading ∨ ∃ records, r.run = .marking records

/-- `Run` reads the watermark only when the report has been recorded. -/
def ReadsAfterReport (r : RunState) (a : RunAction) : Prop :=
  (∃ F, a = .run F) → r.ReadsWatermark → r.past.recorded = true

instance (r : RunState) : Decidable r.ReadsWatermark :=
  match h : r.run with
  | .reading => isTrue (.inl h)
  | .marking records => isTrue (.inr ⟨records, h⟩)
  | .start | .greeting _ | .greeted | .asking | .parked | .before | .listing
  | .bounding _ _ | .collecting _ _ | .syncing _ | .sending _ _ _ _
  | .confirming _ _ _ _ _ | .next | .planning _ | .writing _ | .awaiting _ | .blocked _
  | .returned | .failed _ => isFalse (by simp [ReadsWatermark, h])

instance (r : RunState) : ∀ a, Decidable (r.ReadsAfterReport a)
  | .run F => decidable_of_iff (r.ReadsWatermark → r.past.recorded = true)
      ⟨fun h _ => h, fun h => h ⟨F, rfl⟩⟩
  | .receive _ _ | .handle _ | .blobAck _ | .expire _ | .other _ =>
    isTrue fun ⟨_, hno⟩ => by cases hno

/-- The frames received are acknowledgements, of which the first is the report. -/
def Reports (S : Stdlib) (v : Version) (r : RunState) (a : RunAction) : Prop :=
  a.OfSession S ∧ ∀ w, a.Brings S w → r.conn.session.helloReceived = false → w = v

/-- A reconciling session with a journal that is not empty, before `Run` and
`Handle`. -/
structure Opens (r : RunState) : Prop where
  reconciles : r.conn.session.reconcilePeer = true
  first : r.conn.session.helloReceived = false
  nonempty : ¬ r.conn.node.journal.lastVersion.IsZero
  start : r.run = .start
  idle : r.reader = .idle
  past : r.past = RunHistory.empty

end RunState

/-! ## How far the report has come -/

/-- Where the reader is, whether the report has been accepted, and whether it has
been recorded. -/
inductive ReportStage (v : Version) : ReaderPhase → Bool → Bool → Prop
  | waiting : ReportStage v .idle false false
  | arrived : ReportStage v (.accepting v) false false
  | accepted {p : ReaderPhase} (h : p.report? = some v) : ReportStage v p true false
  | refused (e : Error) (hello : Bool) : ReportStage v (.failed e) hello false
  | recorded {p : ReaderPhase} (h : p.report? = none) : ReportStage v p true true

/-- What holds in every run: until the report is recorded the book is as it was, and
then it holds the report or a later acknowledgement. -/
structure Reported (w₀ v : Version) (r : RunState) : Prop where
  reconciles : r.conn.session.reconcilePeer = true
  nonempty : ¬ r.conn.node.journal.lastVersion.IsZero
  stage : ReportStage v r.reader r.conn.session.helloReceived r.past.recorded
  stored : r.past.recorded = false → r.conn.watermark = w₀
  current : r.past.recorded = true → r.conn.watermark = v ∨ r.conn.watermark ∈ r.past.acked

section

variable {S : Stdlib} {w₀ v : Version} {r : RunState} {a : RunAction}

theorem RunState.Opens.reported (h : r.Opens) : Reported r.conn.watermark v r where
  reconciles := h.reconciles
  nonempty := h.nonempty
  stage := by
    rw [h.idle, h.first, h.past]
    exact .waiting
  stored := fun _ => rfl
  current := by
    rw [h.past]
    exact nofun

namespace ReportStage

variable {p : ReaderPhase} {hello recorded : Bool} {w : Version}

theorem hello_of_recorded (h : ReportStage v p hello true) : hello = true := by
  cases h with
  | recorded _ => rfl

/-- Without a frame at hand, the report has not come or it has been recorded. -/
theorem idle (h : ReportStage v .idle hello recorded) : hello = recorded := by
  cases h with
  | waiting | recorded _ => rfl
  | accepted h => cases h

/-- An acknowledgement at hand before the report is the report. -/
theorem accepting (h : ReportStage v (.accepting w) hello recorded) :
    hello = recorded ∧ (hello = false → w = v) := by
  cases h with
  | arrived => exact ⟨rfl, fun _ => rfl⟩
  | accepted h => cases h
  | recorded _ => exact ⟨rfl, nofun⟩

theorem reporting (h : ReportStage v p hello recorded) (hp : p.report? = some w) :
    w = v ∧ hello = true ∧ recorded = false := by
  cases h with
  | waiting | arrived | refused => cases hp
  | accepted h =>
    rw [hp] at h
    exact ⟨Option.some.inj h, rfl, rfl⟩
  | recorded h =>
    rw [hp] at h
    cases h

theorem failed (h : ReportStage v p hello recorded) (e : Error) :
    ReportStage v (.failed e) hello recorded := by
  cases recorded with
  | false => exact .refused e hello
  | true =>
    rw [h.hello_of_recorded]
    exact .recorded rfl

/-- An acknowledgement is served only after the report. -/
theorem serving (h : ReportStage v p hello recorded)
    (hp : (∃ w, p = .advancing w) ∨ (∃ w, p = .acknowledging w) ∨ p = .signalling) :
    hello = true ∧ recorded = true := by
  have hnone : p.report? = none := by
    rcases hp with ⟨w, rfl⟩ | ⟨w, rfl⟩ | rfl <;> rfl
  cases h with
  | recorded _ => exact ⟨rfl, rfl⟩
  | waiting | arrived | refused => rcases hp with ⟨w, hp⟩ | ⟨w, hp⟩ | hp <;> cases hp
  | accepted h =>
    rw [hnone] at h
    cases h

/-- A step of the reader from one stage to the next. -/
theorem step {reader : ReaderPhase} {acked : List Version}
    (h : ReportStage v r.reader r.conn.session.helloReceived r.past.recorded)
    (hreconciles : r.conn.session.reconcilePeer = true)
    (hnonempty : ¬ r.conn.node.journal.lastVersion.IsZero)
    (hv : ∀ w, a.Brings S w → r.conn.session.helloReceived = false → w = v)
    (hmoves : ReaderMoves (a.Brings S) r reader hello w recorded acked) :
    ReportStage v reader hello recorded := by
  have hserved : ∀ {p : ReaderPhase}, p.report? = none →
      r.conn.session.helloReceived = true ∧ r.past.recorded = true →
      ReportStage v p r.conn.session.helloReceived r.past.recorded := by
    intro p hp hdone
    rw [hdone.1, hdone.2]
    exact .recorded hp
  cases hmoves with
  | stay => exact h
  | fail e => exact h.failed e
  | @frame u hreader hu _ =>
    rw [hreader] at h
    rw [← h.idle]
    cases hhello : r.conn.session.helloReceived with
    | false =>
      rw [hv u hu hhello]
      exact .arrived
    | true => exact .recorded rfl
  | ack hreader hu hpeer =>
    rw [hreconciles] at hpeer
    cases hpeer
  | later hreader hhello =>
    rw [hreader] at h
    rw [← h.accepting.1, hhello]
    exact .recorded rfl
  | first hreader hhello =>
    rw [hreader] at h
    rw [← h.accepting.1, h.accepting.2 hhello, hhello]
    exact .accepted rfl
  | empty _ hlast => exact absurd hlast hnonempty
  | @report u hreader | @allowReport u hreader _ =>
    obtain ⟨rfl, hhello, hrec⟩ := h.reporting (w := u) (by rw [hreader]; rfl)
    rw [hhello, hrec]
    exact .accepted rfl
  | record hreader =>
    obtain ⟨_, hhello, _⟩ := h.reporting (w := w) (by rw [hreader]; rfl)
    rw [hhello]
    exact .recorded rfl
  | allowAck hreader _ => exact hserved rfl (h.serving (.inl ⟨_, hreader⟩))
  | acknowledge hreader _ => exact hserved rfl (h.serving (.inr (.inl ⟨_, hreader⟩)))
  | signal hreader => exact hserved rfl (h.serving (.inr (.inr hreader)))

end ReportStage

/-- What the book says after a step of the reader. -/
theorem Reported.book {reader : ReaderPhase} {hello recorded : Bool} {w : Version}
    {acked : List Version} {Brings : Version → Prop} (h : Reported w₀ v r)
    (hmoves : ReaderMoves Brings r reader hello w recorded acked) :
    (recorded = false → w = w₀) ∧ (recorded = true → w = v ∨ w ∈ acked) := by
  have hbook := And.intro h.stored h.current
  cases hmoves with
  | stay | fail e | frame _ _ _ | ack _ _ _ | later _ _ | first _ _ | empty _ _ | report _
  | allowReport _ _ | allowAck _ _ | signal _ => exact hbook
  | record hreader =>
    obtain ⟨hw, _, _⟩ := h.stage.reporting (w := w) (by rw [hreader]; rfl)
    exact ⟨nofun, fun _ => .inl hw⟩
  | @acknowledge u hreader _ =>
    obtain ⟨_, hrec⟩ := h.stage.serving (.inr (.inl ⟨u, hreader⟩))
    refine ⟨fun hno => absurd (hrec.symm.trans hno) nofun, fun _ => ?_⟩
    rcases max_choice r.conn.watermark u with hmax | hmax
    · rw [hmax]
      exact (h.current hrec).imp id fun hmem => List.mem_append_left _ hmem
    · rw [hmax]
      exact .inr (List.mem_append_right _ (List.mem_singleton_self u))

/-- Every action of the session keeps what holds in every run. -/
theorem Reported.step (hS : S.Lawful) (h : Reported w₀ v r) (ha : r.Reports S v a) :
    Reported w₀ v (r.step S a) := by
  rcases RunState.step_cases hS r ha.1 with ⟨hkept, _⟩ | ⟨hserved, hmoves⟩
  · have hmark : (r.step S a).conn.watermark = r.conn.watermark := by
      unfold SessionState.watermark
      rw [hkept.node, hkept.session]
    constructor
    · rw [hkept.session]
      exact h.reconciles
    · rw [hkept.node]
      exact h.nonempty
    · rw [hkept.reader, hkept.session, hkept.recorded]
      exact h.stage
    · rw [hkept.recorded, hmark]
      exact h.stored
    · rw [hkept.recorded, hkept.acked, hmark]
      exact h.current
  · obtain ⟨hstored, hcurrent⟩ := h.book hmoves
    constructor
    · rw [hserved.session]
      exact h.reconciles
    · rw [hserved.journal]
      exact h.nonempty
    · exact h.stage.step h.reconciles h.nonempty ha.2 hmoves
    · exact hstored
    · exact hcurrent

/-! ## What is used -/

/-- The phases in which nothing has been read for a plan yet. -/
def RunPhase.Unread : RunPhase → Prop
  | .marking _ | .next | .reading | .failed _ => True
  | p => p.Early

/-- What holds when the watermark is read only after the report. -/
structure Orderly (v : Version) (r : RunState) : Prop where
  used : ∀ w ∈ r.past.used, w = v ∨ w ∈ r.past.acked
  waits : r.past.recorded = false → r.past.used = [] ∧ r.past.sent = [] ∧ r.run.Unread

theorem RunState.Opens.orderly (h : r.Opens) : Orderly v r where
  used := by
    rw [h.past]
    exact nofun
  waits := by
    rw [h.past, h.start]
    exact fun _ => ⟨rfl, rfl, trivial⟩

/-- A step of `Run` that reads the watermark only after the report. -/
theorem Orderly.advanced {phase : RunPhase} {past : RunHistory} (h : Orderly v r)
    (hr : Reported w₀ v r) (hread : r.ReadsWatermark → r.past.recorded = true)
    (hadvanced : Advanced S r phase past) :
    (∀ w ∈ past.used, w = v ∨ w ∈ r.past.acked) ∧
      (r.past.recorded = false → past.used = [] ∧ past.sent = [] ∧ phase.Unread) := by
  have hnew : ∀ {used : List Version}, r.past.recorded = true →
      (∀ w ∈ used, w = r.conn.watermark ∨ w ∈ r.past.used) →
      ∀ w ∈ used, w = v ∨ w ∈ r.past.acked := by
    intro used hrec hmem w hw
    rcases hmem w hw with rfl | hold
    · exact hr.current hrec
    · exact h.used w hold
  -- a step that reads nothing: only the phase is left to be looked at
  have hsame : ∀ {past : RunHistory}, past.used = r.past.used → past.sent = r.past.sent →
      (r.run.Unread → phase.Unread) → (∀ w ∈ past.used, w = v ∨ w ∈ r.past.acked) ∧
      (r.past.recorded = false → past.used = [] ∧ past.sent = [] ∧ phase.Unread) := by
    intro past hused hsent hphase
    rw [hused, hsent]
    refine ⟨h.used, fun hrec => ?_⟩
    obtain ⟨hnone, hunsent, hunread⟩ := h.waits hrec
    exact ⟨hnone, hunsent, hphase hunread⟩
  have hlater : ∀ {p : RunPhase}, r.run = p → ¬ p.Unread → r.run.Unread → phase.Unread := by
    intro p hp hno hunread
    rw [hp] at hunread
    exact absurd hunread hno
  cases hadvanced with
  | stay => exact hsame rfl rfl id
  | fail e | skip _ _ | list _ | ready _ | synced _ => exact hsame rfl rfl fun _ => trivial
  | early _ hearly =>
    refine hsame rfl rfl fun _ => ?_
    cases phase <;> trivial
  | mark hrun =>
    have hrec := hread (.inr ⟨_, hrun⟩)
    refine ⟨hnew hrec fun w hw => ?_, fun hno => absurd (hrec.symm.trans hno) nofun⟩
    unfold RunHistory.used at hw ⊢
    simp only [List.mem_append, List.mem_singleton] at hw ⊢
    tauto
  | read hrun =>
    have hrec := hread (.inl hrun)
    refine ⟨hnew hrec fun w hw => ?_, fun hno => absurd (hrec.symm.trans hno) nofun⟩
    unfold RunHistory.used at hw ⊢
    simp only [List.mem_append, List.mem_singleton] at hw ⊢
    tauto
  | behind hrun _ | select hrun _ | collect hrun | load _ hrun | send hrun | confirmed hrun
  | blobAcked hrun | resend hrun | plan hrun _ | settle hrun _ | block hrun | wake hrun =>
    exact hsame rfl rfl (hlater hrun id)
  | write hrun | writeFails e hrun =>
    have hbusy : ¬ r.run.Unread := by
      rw [hrun]
      exact id
    exact ⟨h.used, fun hrec => absurd (h.waits hrec).2.2 hbusy⟩

theorem RunState.blobAck_of_reads (hreads : r.ReadsWatermark) (key : Bytes) :
    r.blobAck key = r := by
  unfold blobAck
  rcases hreads with hrun | ⟨_, hrun⟩ <;> rw [hrun]

theorem RunState.expire_of_reads (hreads : r.ReadsWatermark) (F : Faults) :
    r.expire F = r := by
  unfold expire
  rcases hreads with hrun | ⟨_, hrun⟩ <;> rw [hrun]

/-- An action that reads the watermark only after the report. -/
theorem Orderly.step (hS : S.Lawful) (h : Orderly v r) (hr : Reported w₀ v r)
    (ha : a.OfSession S) (hread : r.ReadsAfterReport a) : Orderly v (r.step S a) := by
  have hrun : ∀ {r' : RunState}, RunState.Kept r r' → Advanced S r r'.run r'.past →
      (r.ReadsWatermark → r.past.recorded = true) → Orderly v r' := by
    intro r' hkept hadvanced hread
    obtain ⟨hused, hwaits⟩ := h.advanced hr hread hadvanced
    rw [← hkept.acked] at hused
    rw [← hkept.recorded] at hwaits
    exact ⟨hused, hwaits⟩
  have hserve : ∀ {r' : RunState}, RunState.Moved (a.Brings S) r r' → Orderly v r' := by
    intro r' ⟨hserved, hmoves⟩
    obtain ⟨hrec, hacked⟩ := hmoves.grows
    have hused : r'.past.used = r.past.used := by
      rw [hserved.past]
      rfl
    have hsent : r'.past.sent = r.past.sent := by
      rw [hserved.past]
    refine ⟨fun w hw => ?_, fun hno => ?_⟩
    · rw [hused] at hw
      exact (h.used w hw).imp id fun hmem => hacked.subset hmem
    · rw [hused, hsent, hserved.run]
      exact h.waits (hrec hno)
  cases a with
  | run F =>
    exact hrun (RunState.advance_frame S F r) (RunState.advance_cases S F r)
      (hread ⟨F, rfl⟩)
  | receive F payload =>
    obtain ⟨u, rfl⟩ := ha
    exact hserve (RunState.receive_ack hS F u r ⟨F, rfl⟩)
  | handle F => exact hserve (RunState.handle_cases S F r _)
  | blobAck key =>
    by_cases hreads : r.ReadsWatermark
    · show Orderly v (r.blobAck key)
      rw [RunState.blobAck_of_reads hreads]
      exact h
    · obtain ⟨hkept, hadvanced⟩ := RunState.blobAck_cases S r key
      exact hrun hkept hadvanced fun hno => absurd hno hreads
  | expire F =>
    by_cases hreads : r.ReadsWatermark
    · show Orderly v (r.expire F)
      rw [RunState.expire_of_reads hreads]
      exact h
    · obtain ⟨hkept, hadvanced⟩ := RunState.expire_cases S F r
      exact hrun hkept hadvanced fun hno => absurd hno hreads
  | other step => exact absurd ha id

/-- What has been used stays used. -/
theorem RunState.used_step (hS : S.Lawful) (ha : a.OfSession S) {w : Version}
    (hw : w ∈ r.past.used) : w ∈ (r.step S a).past.used := by
  rcases RunState.step_cases hS r ha with ⟨_, hadvanced⟩ | ⟨hserved, _⟩
  · generalize (r.step S a).run = phase at hadvanced
    generalize (r.step S a).past = past at hadvanced
    unfold RunHistory.used at hw ⊢
    rw [List.mem_append] at hw ⊢
    cases hadvanced with
    | mark _ => exact hw.imp (List.mem_append_left _) id
    | read _ => exact hw.imp id (List.mem_append_left _)
    | _ => exact hw
  · rw [hserved.past]
    exact hw

/-- A step that reads the watermark uses it. -/
theorem RunState.used_read (hreads : r.ReadsWatermark) (F : Faults) :
    r.conn.watermark ∈ (r.step S (.run F)).past.used := by
  show _ ∈ (r.advance S F).past.used
  rcases hreads with hrun | ⟨records, hrun⟩
  · rw [advance, hrun]
    exact List.mem_append_right _ (List.mem_append_right _ (List.mem_singleton_self _))
  · rw [advance, hrun]
    exact List.mem_append_left _ (List.mem_append_right _ (List.mem_singleton_self _))

end

/-! ## Planning follows the report -/

/-- In a run in which `Run` reads the watermark only after the report was recorded,
`beforeRepair` and every plan use the report or a later acknowledgement, and nothing
is sent when the report could not be recorded.  In every other run the watermark
that was stored before is used. -/
theorem watermarks_used_after_report {S : Stdlib} (hS : S.Lawful) {start : RunState}
    (hstart : start.Opens) (v : Version) (actions : List RunAction)
    (hactions : Along (RunState.step S) (RunState.Reports S v) start actions) :
    (Along (RunState.step S) RunState.ReadsAfterReport start actions →
      (∀ w ∈ (start.steps S actions).past.used,
        w = v ∨ w ∈ (start.steps S actions).past.acked) ∧
      ((start.steps S actions).past.recorded = false →
        (start.steps S actions).past.sent = [])) ∧
    (¬ Along (RunState.step S) RunState.ReadsAfterReport start actions →
      start.conn.watermark ∈ (start.steps S actions).past.used) := by
  constructor
  · intro hordered
    have hinv : Reported start.conn.watermark v (start.steps S actions) ∧
        Orderly v (start.steps S actions) := by
      refine run_invariant (I := fun r => Reported start.conn.watermark v r ∧ Orderly v r)
        ?_ (hactions.and hordered) ⟨hstart.reported, hstart.orderly⟩
      intro r a ⟨ha, hread⟩ ⟨hr, ho⟩
      exact ⟨hr.step hS ha, ho.step hS hr ha.1 hread⟩
    exact ⟨hinv.2.used, fun hrec => (hinv.2.waits hrec).2.1⟩
  · intro hordered
    obtain ⟨before, a, after, hsplit, hbad⟩ := exists_of_not_along hordered
    rw [hsplit, Along.append_iff] at hactions
    obtain ⟨hbefore, ha, hafter⟩ := hactions
    have hr : Reported start.conn.watermark v (Transition.run (RunState.step S) start before) :=
      run_invariant (fun r a ha hr => hr.step hS ha) hbefore hstart.reported
    unfold RunState.ReadsAfterReport at hbad
    simp only [Classical.not_imp] at hbad
    obtain ⟨⟨F, rfl⟩, hreads, hrec⟩ := hbad
    have hread := RunState.used_read (S := S) hreads F
    rw [hr.stored (by simpa using hrec)] at hread
    show start.conn.watermark ∈ (Transition.run (RunState.step S) start actions).past.used
    rw [hsplit, run_append]
    exact run_invariant (I := fun r => start.conn.watermark ∈ r.past.used)
      (fun r a ha hw => RunState.used_step hS ha.1 hw) hafter hread

/-! ## A report that comes too late -/

theorem ackPayload_injective {S : Stdlib} (hS : S.Lawful) {v w : Version}
    (h : ackPayload S v = ackPayload S w) : v = w := by
  have hv := hS.ack.decode_marshal (RepairAck.mk repairAckMessageType v) rfl
  have hw := hS.ack.decode_marshal (RepairAck.mk repairAckMessageType w) rfl
  unfold ackPayload at h
  rw [h, hw] at hv
  cases hv
  rfl

/-- The steps of a session that receives nothing but the report. -/
def RunAction.OnlyReport (S : Stdlib) (v : Version) : RunAction → Prop
  | .run _ | .handle _ => True
  | .receive _ payload => payload = ackPayload S v
  | _ => False

theorem reports_of_onlyReport {S : Stdlib} (hS : S.Lawful) {v : Version} {start : RunState}
    {actions : List RunAction} (h : ∀ a ∈ actions, a.OnlyReport S v) :
    Along (RunState.step S) (RunState.Reports S v) start actions := by
  refine along_of_forall fun a ha r => ?_
  have hown := h a ha
  cases a with
  | run F | handle F => exact ⟨trivial, fun w ⟨_, hno⟩ => by cases hno⟩
  | receive F payload =>
    refine ⟨⟨v, hown⟩, fun w ⟨F', hw⟩ _ => ?_⟩
    injection hw with _ hpayload
    rw [show payload = ackPayload S v from hown] at hpayload
    exact (ackPayload_injective hS hpayload).symm
  | blobAck key | expire F | other step => exact absurd hown id

namespace Sample

/-- A session whose peer is known to have the first of two records. -/
def reconnecting : RunState where
  conn := greeting (ascii "b") first.version
  checkpoint := none
  raw := ⟨false, ⟨0, 0, 0, 0⟩, 0, 0⟩
  helloNotify := false
  ackNotify := false
  run := .start
  reader := .idle
  past := RunHistory.empty

theorem reconnecting_opens : reconnecting.Opens where
  reconciles := rfl
  first := rfl
  nonempty := by decide +kernel
  start := rfl
  idle := rfl
  past := rfl

/-- The peer has lost its metadata and reports zero. -/
def report : RunAction := .receive Faults.none (ackPayload goStdlib Version.zero)

/-- `Run` up to the wait for the report. -/
def untilParked : List RunAction := List.replicate 4 (.run Faults.none)

/-- `Run` from there on, until it has written a frame. -/
def untilWritten : List RunAction := List.replicate 6 (.run Faults.none)

/-- `Run` goes on as soon as the report is accepted, and recording it fails. -/
def reportTooLate : List RunAction :=
  untilParked ++ [report, .handle Faults.none] ++ untilWritten ++
    List.replicate 3 (.handle (Faults.single .watermark (.write 0) (.fail 0)))

/-- `Run` goes on when the report has been recorded. -/
def reportInTime : List RunAction :=
  untilParked ++ [report] ++ List.replicate 4 (.handle Faults.none) ++ untilWritten

theorem reportTooLate_reports :
    Along (RunState.step goStdlib) (RunState.Reports goStdlib Version.zero) reconnecting
      reportTooLate := by
  refine reports_of_onlyReport goStdlib_lawful ?_
  simp only [reportTooLate, untilParked, untilWritten, report, List.forall_mem_append,
    List.forall_mem_cons, List.forall_mem_replicate, RunAction.OnlyReport]
  simp

theorem reportInTime_reports :
    Along (RunState.step goStdlib) (RunState.Reports goStdlib Version.zero) reconnecting
      reportInTime := by
  refine reports_of_onlyReport goStdlib_lawful ?_
  simp only [reportInTime, untilParked, untilWritten, report, List.forall_mem_append,
    List.forall_mem_cons, List.forall_mem_replicate, RunAction.OnlyReport]
  simp

end Sample

/-- The report is zero, but the stored watermark is used, and a batch is sent although
the report could not be recorded. -/
theorem plans_before_report :
    Sample.reconnecting.Opens ∧
      Along (RunState.step goStdlib) (RunState.Reports goStdlib Version.zero)
        Sample.reconnecting Sample.reportTooLate ∧
      (Sample.reconnecting.steps goStdlib Sample.reportTooLate).past.used =
        [Sample.reconnecting.conn.watermark] ∧
      Sample.reconnecting.conn.watermark ≠ Version.zero ∧
      (Sample.reconnecting.steps goStdlib Sample.reportTooLate).past.acked = [] ∧
      (Sample.reconnecting.steps goStdlib Sample.reportTooLate).past.recorded = false ∧
      (Sample.reconnecting.steps goStdlib Sample.reportTooLate).past.sent ≠ [] :=
  ⟨Sample.reconnecting_opens, Sample.reportTooLate_reports, by decide +kernel⟩

theorem watermarks_used_after_report_sample :
    Along (RunState.step goStdlib) RunState.ReadsAfterReport Sample.reconnecting
        Sample.reportInTime ∧
      (Sample.reconnecting.steps goStdlib Sample.reportInTime).past.used = [Version.zero] ∧
      ∀ w ∈ (Sample.reconnecting.steps goStdlib Sample.reportInTime).past.used,
        w = Version.zero ∨
          w ∈ (Sample.reconnecting.steps goStdlib Sample.reportInTime).past.acked := by
  have hordered : Along (RunState.step goStdlib) RunState.ReadsAfterReport
      Sample.reconnecting Sample.reportInTime := by decide +kernel
  exact ⟨hordered, by decide +kernel, ((watermarks_used_after_report goStdlib_lawful
    Sample.reconnecting_opens Version.zero Sample.reportInTime
    Sample.reportInTime_reports).1 hordered).1⟩

end StreamHive.Lifecycle
