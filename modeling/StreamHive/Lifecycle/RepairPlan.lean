import StreamHive.Lifecycle.RepairFrame

/-!
# Planning and classifying repair

`Journal.RepairBatch` takes the longest run of records after a peer's watermark
for which every shorter run could be sent as well; `PlanRepair` sends such a
batch, or the checkpoint when the peer is behind the journal floor.
`RepairBatch.Delivery` is the receiver's classification.

## Main results

* `Journal.repairBatch_ok` — which batch is planned;
* `planRepair_ok` — which frame is planned;
* `RepairBatch.delivery_eq` — how an admissible batch is classified.
-/

namespace StreamHive.Lifecycle

open Verified ByteString Effect Log

variable {b : RepairBatch}

/-! ## The program -/

inductive RepairPlanMode where
  | journal
  | snapshot
  deriving DecidableEq, Repr

/-- A bounded payload and the watermark it leads to. -/
structure RepairPlan where
  mode : RepairPlanMode
  from_ : Version
  to_ : Version
  more : Bool
  payload : Bytes
  deriving DecidableEq, Repr

inductive RepairDelivery where
  | ready
  | duplicate
  deriving DecidableEq, Repr

variable (S : Stdlib)

/-- Ready, a harmless duplicate, or a gap. -/
def RepairBatch.delivery (b : RepairBatch) (expected : Version) (limits : RepairLimits) :
    Except Error RepairDelivery := do
  validateRepairBatch S b limits.normalized
  if b.to_.compare expected ≤ 0 then
    .ok .duplicate
  else if b.from_ ≠ expected then
    .error .repairWatermarkMismatch
  else
    .ok .ready

/-- The loop that selects records while the batch of them can be sent; `total`
is the number of records after the watermark. -/
def selectRecords (limits : RepairLimits) (from_ : Version) (total : Nat) :
    List Record → List Record → Except Error (List Record)
  | selected, [] => .ok selected
  | selected, record :: rest =>
    let candidate := selected ++ [record]
    let batch : RepairBatch := ⟨repairBatchMessageType, from_, record.version,
      decide (candidate.length < total), candidate⟩
    match (do validateRepairBatch S batch limits; encodeRepairBatch S batch limits) with
    | .error e => if selected.length = 0 then .error e else .ok selected
    | .ok _ => selectRecords limits from_ total candidate rest

/-- The next bounded journal tail after a peer watermark. -/
def Journal.repairBatch (o : Oracle) (j : Journal) (from_ : Version) (limits : RepairLimits) :
    Except Error RepairBatch := do
  ctxCheck o 2
  let limits := limits.normalized
  let _ ← j.ensureOpen
  if from_.compare j.floor < 0 then
    .error .peerBehindWatermark
  else do
    let remaining := j.records.filter fun r => r.version.compare from_ > 0
    let selected ← selectRecords S limits from_ remaining.length [] remaining
    let batch : RepairBatch := ⟨repairBatchMessageType, from_,
      Log.lastVersion Record.version from_ selected,
      decide (selected.length < remaining.length), selected⟩
    let _ ← encodeRepairBatch S batch limits
    .ok batch

/-- A bounded journal batch, or the checkpoint for a peer behind the floor. -/
def planRepair (o : Oracle) (journal : Journal) (from_ : Version) (snapshot : Option Checkpoint)
    (limits : RepairLimits) : Except Error RepairPlan := do
  ctxCheck o 1
  let limits := limits.normalized
  if from_.compare journal.floor < 0 then
    match snapshot with
    | none => .error .repairSnapshotRequired
    | some snapshot =>
      if snapshot.watermark ≠ journal.floor then
        .error .repairSnapshotWatermark
      else do
        let payload ← encodeRepairSnapshot S
          ⟨repairSnapshotMessageType, snapshot.watermark, snapshot.records⟩ limits
        .ok ⟨.snapshot, from_, journal.floor, false, payload⟩
  else do
    let batch ← journal.repairBatch S o from_ limits
    let payload ← encodeRepairBatch S batch limits
    .ok ⟨.journal, batch.from_, batch.to_, batch.more, payload⟩

/-! ## Classification -/

theorem RepairBatch.delivery_eq {S : Stdlib} {limits : RepairLimits}
    (h : b.Admissible S limits.normalized) (expected : Version) : b.delivery S expected limits =
      if b.to_ ≤ expected then .ok .duplicate
      else if b.from_ = expected then .ok .ready
      else .error .repairWatermarkMismatch := by
  unfold delivery
  rw [validateRepairBatch_eq_ok.mpr h]
  change (if b.to_.compare expected ≤ 0 then _ else _) = _
  simp only [Version.compare_le_zero]
  by_cases hto : b.to_ ≤ expected
  · rw [if_pos hto, if_pos hto]
  · rw [if_neg hto, if_neg hto]
    by_cases hfrom : b.from_ = expected
    · rw [if_neg (not_not.mpr hfrom), if_pos hfrom]
    · rw [if_pos hfrom, if_neg hfrom]

theorem RepairBatch.admissible_of_delivery {S : Stdlib} {limits : RepairLimits}
    {expected : Version} {d : RepairDelivery} (h : b.delivery S expected limits = .ok d) :
    b.Admissible S limits.normalized := by
  unfold delivery at h
  rw [except_bind_ok] at h
  obtain ⟨_, hvalid, _⟩ := h
  exact validateRepairBatch_eq_ok.mp hvalid

/-! ## Selection -/

/-- The batch of the first `n` records after a watermark. -/
def candidateBatch (from_ : Version) (remaining : List Record) (n : Nat) : RepairBatch where
  type := repairBatchMessageType
  from_ := from_
  to_ := lastVersion Record.version from_ (remaining.take n)
  more := decide (n < remaining.length)
  records := remaining.take n

/-- The batch can be sent. -/
def RepairBatch.Sendable (limits : RepairLimits) (b : RepairBatch) : Prop :=
  ∃ payload, encodeRepairBatch S b limits = .ok payload

/-- The first `n` records are the ones selected: every shorter run can be sent,
and one more record cannot be added. -/
structure Selects (S : Stdlib) (limits : RepairLimits) (from_ : Version)
    (remaining : List Record) (n : Nat) : Prop where
  within : n ≤ remaining.length
  some : n = 0 → remaining = []
  shorter : ∀ k, 0 < k → k ≤ n → (candidateBatch from_ remaining k).Sendable S limits
  stops : n = remaining.length ∨ ¬ (candidateBatch from_ remaining (n + 1)).Sendable S limits

section Selection

variable {S : Stdlib} {limits : RepairLimits} {from_ : Version}

theorem candidateBatch_concat (selected rest : List Record) (record : Record) :
    candidateBatch from_ (selected ++ record :: rest) (selected.length + 1) =
      ⟨repairBatchMessageType, from_, record.version,
        decide ((selected ++ [record]).length < (selected ++ record :: rest).length),
        selected ++ [record]⟩ := by
  have htake : (selected ++ record :: rest).take (selected.length + 1) =
      selected ++ [record] := by
    rw [List.take_append, List.take_of_length_le (by omega)]
    simp
  have hlen : (selected ++ [record]).length = selected.length + 1 := by simp
  unfold candidateBatch
  rw [htake, lastVersion_concat, hlen]

/-- The two checks of the loop are the one of encoding. -/
theorem checks_eq_ok {payload : Bytes} (htype : b.type = repairBatchMessageType) :
    (do validateRepairBatch S b limits.normalized
        encodeRepairBatch S b limits.normalized) = .ok payload ↔
      encodeRepairBatch S b limits.normalized = .ok payload := by
  rw [except_bind_ok]
  constructor
  · rintro ⟨_, _, h⟩
    exact h
  · intro h
    have hadm := ((encodeRepairBatch_eq_ok htype).mp h).1
    rw [RepairLimits.normalized_normalized] at hadm
    exact ⟨(), validateRepairBatch_eq_ok.mpr hadm, h⟩

/-- The loop stops at the first record that cannot be added. -/
theorem selectRecords_ok (rest : List Record) :
    ∀ {selected out : List Record},
      selectRecords S limits.normalized from_ (selected ++ rest).length selected rest =
        .ok out →
      ∃ n, selected.length ≤ n ∧ n ≤ (selected ++ rest).length ∧
        out = (selected ++ rest).take n ∧ (n = 0 → rest = []) ∧
        (∀ k, selected.length < k → k ≤ n →
          (candidateBatch from_ (selected ++ rest) k).Sendable S limits.normalized) ∧
        (n = (selected ++ rest).length ∨
          ¬ (candidateBatch from_ (selected ++ rest) (n + 1)).Sendable S
            limits.normalized) := by
  induction rest with
  | nil =>
    intro selected out h
    cases h
    refine ⟨selected.length, le_refl _, by simp, by simp, fun _ => rfl, ?_, .inl (by simp)⟩
    intro k hlt hle
    omega
  | cons record rest ih =>
    intro selected out h
    have hlen : selected.length < (selected ++ record :: rest).length := by simp
    have hbatch := @candidateBatch_concat from_ selected rest record
    unfold selectRecords at h
    simp only at h
    rw [← hbatch] at h
    cases hchecks : (do
        validateRepairBatch S (candidateBatch from_ (selected ++ record :: rest)
          (selected.length + 1)) limits.normalized
        encodeRepairBatch S (candidateBatch from_ (selected ++ record :: rest)
          (selected.length + 1)) limits.normalized) with
    | error e =>
      rw [hchecks] at h
      simp only at h
      rw [except_guard_ok] at h
      obtain ⟨hne, hout⟩ := h
      refine ⟨selected.length, le_refl _, le_of_lt hlen, ?_, fun h0 => absurd h0 hne,
        ?_, .inr ?_⟩
      · rw [← Except.ok.inj hout]
        simp
      · intro k hlt hle
        omega
      · rintro ⟨payload, hpayload⟩
        rw [(checks_eq_ok rfl).mpr hpayload] at hchecks
        cases hchecks
    | ok payload =>
      rw [hchecks] at h
      simp only at h
      have hshift : selected ++ record :: rest = (selected ++ [record]) ++ rest := by simp
      rw [hshift] at h
      obtain ⟨n, hle, hlast, hout, _, hshorter, hstops⟩ := ih h
      rw [← hshift] at hlast hout hshorter hstops
      rw [List.length_append, List.length_singleton] at hle
      refine ⟨n, by omega, hlast, hout, by omega, ?_, hstops⟩
      intro k hlt hkn
      by_cases hk : k = selected.length + 1
      · rw [hk]
        exact ⟨payload, (checks_eq_ok rfl).mp hchecks⟩
      · refine hshorter k ?_ hkn
        rw [List.length_append, List.length_singleton]
        omega

/-- The planned batch: the records selected after the watermark. -/
theorem Journal.repairBatch_ok {o : Oracle} {j : Journal}
    (h : j.repairBatch S o from_ limits = .ok b) :
    j.floor ≤ from_ ∧ ∃ n, b = candidateBatch from_ (after Record.version from_ j.records) n ∧
      Selects S limits.normalized from_ (after Record.version from_ j.records) n ∧
      b.Sendable S limits.normalized := by
  unfold Journal.repairBatch at h
  rw [except_bind_ok] at h
  obtain ⟨_, _, h⟩ := h
  rw [except_bind_ok] at h
  obtain ⟨_, _, h⟩ := h
  rw [except_guard_ok, Version.compare_lt_zero, not_lt] at h
  obtain ⟨hfloor, h⟩ := h
  have hremaining : (j.records.filter fun r => r.version.compare from_ > 0) =
      after Record.version from_ j.records := by
    unfold after
    simp only [Version.compare_pos]
  rw [hremaining, except_bind_ok] at h
  obtain ⟨selected, hselect, h⟩ := h
  rw [except_bind_ok] at h
  obtain ⟨payload, hpayload, h⟩ := h
  obtain ⟨n, _, hn, hout, hsome, hshorter, hstops⟩ :=
    @selectRecords_ok S limits from_ (after Record.version from_ j.records) [] selected hselect
  rw [List.nil_append] at hn hout hshorter hstops
  have hbatch : b = candidateBatch from_ (after Record.version from_ j.records) n := by
    rw [← Except.ok.inj h, hout]
    unfold candidateBatch
    rw [List.length_take, min_eq_left hn]
  refine ⟨hfloor, n, hbatch, ⟨hn, hsome, fun k hpos hle => hshorter k hpos hle, hstops⟩, ?_⟩
  have hsent : b.Sendable S limits.normalized := by
    rw [← Except.ok.inj h]
    exact ⟨payload, hpayload⟩
  exact hsent

end Selection

/-! ## Plans -/

/-- The frame that a plan sends. -/
inductive Planned (S : Stdlib) (limits : RepairLimits) (journal : Journal)
    (from_ : Version) (snapshot : Option Checkpoint) : RepairPlan → Prop
  /-- the checkpoint, for a peer behind the floor -/
  | snapshot (c : Checkpoint) (hsnapshot : snapshot = some c) (hbehind : from_ < journal.floor)
      (hwatermark : c.watermark = journal.floor)
      (hrecords : CheckpointRecords S limits.recordLimits c.watermark c.records)
      (hholds : limits.normalized.Holds S (tableOf c.records).values) :
      Planned S limits journal from_ snapshot
        ⟨.snapshot, from_, journal.floor, false, S.snapshot.marshal
          ⟨repairSnapshotMessageType, c.watermark, (tableOf c.records).values⟩⟩
  /-- the records selected after the watermark -/
  | journal (n : Nat) (hfloor : journal.floor ≤ from_)
      (hselects : Selects S limits.normalized from_
        (after Record.version from_ journal.records) n)
      (hadmissible : (candidateBatch from_ (after Record.version from_ journal.records)
        n).Admissible S limits.normalized) :
      Planned S limits journal from_ snapshot
        ⟨.journal, from_, lastVersion Record.version from_
            ((after Record.version from_ journal.records).take n),
          decide (n < (after Record.version from_ journal.records).length),
          S.batch.marshal (candidateBatch from_
            (after Record.version from_ journal.records) n)⟩

theorem planRepair_ok {S : Stdlib} {o : Oracle} {journal : Journal} {from_ : Version}
    {snapshot : Option Checkpoint} {limits : RepairLimits} {plan : RepairPlan}
    (h : planRepair S o journal from_ snapshot limits = .ok plan) :
    Planned S limits journal from_ snapshot plan := by
  unfold planRepair at h
  rw [except_bind_ok] at h
  obtain ⟨_, _, h⟩ := h
  simp only [Version.compare_lt_zero] at h
  by_cases hbehind : from_ < journal.floor
  · rw [if_pos hbehind] at h
    cases snapshot with
    | none => cases h
    | some c =>
      simp only at h
      rw [except_guard_ok, not_not, except_bind_ok] at h
      obtain ⟨hwatermark, payload, hpayload, h⟩ := h
      obtain ⟨hrecords, hholds, rfl, _⟩ := (encodeRepairSnapshot_eq_ok rfl).mp hpayload
      rw [RepairLimits.normalized_normalized] at hholds
      rw [← Except.ok.inj h]
      exact .snapshot c rfl hbehind hwatermark (checkpointRecords_normalized.mp hrecords)
        hholds
  · rw [if_neg hbehind, except_bind_ok] at h
    obtain ⟨b, hb, h⟩ := h
    rw [except_bind_ok] at h
    obtain ⟨payload, hpayload, h⟩ := h
    obtain ⟨hfloor, n, rfl, hselects, _⟩ := Journal.repairBatch_ok hb
    rw [RepairLimits.normalized_normalized] at hselects
    obtain ⟨hadm, rfl, _⟩ := (encodeRepairBatch_eq_ok rfl).mp hpayload
    rw [RepairLimits.normalized_normalized] at hadm
    rw [← Except.ok.inj h]
    exact .journal n hfloor hselects hadm

end StreamHive.Lifecycle
