import StreamHive.Lifecycle.LiveJournal
import StreamHive.Lifecycle.RepairPlan

/-!
# Reading a journal batch by batch

A peer is repaired by calling `RepairBatch` with its watermark, then with the end of
each batch, until a batch says that there is no more.  Every batch with more to come
holds a record, so the calls end; together they hold the tail of the journal once.

## Main result

* `batch_iteration` — the calls end with the whole tail, or at a record that alone
  exceeds a limit.
-/

namespace StreamHive.Lifecycle

open Verified ByteString Effect Log

/-! ## The calls -/

/-- The batches of a series of calls, and where and with which error it failed. -/
structure BatchRun where
  batches : List RepairBatch
  failed : Option (Version × Error)

/-- Call `RepairBatch` from the end of each batch, at most `fuel` times; `none` when
there is still more. -/
def Journal.repairBatches (S : Stdlib) (o : Oracle) (j : Journal) (limits : RepairLimits) :
    Nat → Version → Option BatchRun
  | 0, _ => none
  | fuel + 1, from_ =>
    match j.repairBatch S o from_ limits with
    | .error e => some ⟨[], some (from_, e)⟩
    | .ok batch =>
      if batch.more then
        (j.repairBatches S o limits fuel batch.to_).map fun run =>
          ⟨batch :: run.batches, run.failed⟩
      else
        some ⟨[batch], none⟩

/-! ## Why a call fails -/

/-- A size of the record is beyond the record limits. -/
def Record.ExceedsLimits (S : Stdlib) (limits : Limits) (r : Record) : Prop :=
  r.nameSpace.length > limits.normalized.maxNamespaceBytes ∨
    r.logicalKey.length > limits.normalized.maxLogicalKeyBytes ∨
    r.authorityID.length > limits.normalized.maxAuthorityIDBytes ∨
    (S.record.marshal r).length > limits.normalized.maxRecordBytes

/-- Alone in a batch, the record is beyond one of the limits. -/
def Record.Exceeds (S : Stdlib) (limits : RepairLimits) (from_ : Version) (more : Bool)
    (r : Record) : Prop :=
  r.ExceedsLimits S limits.recordLimits ∨
    (repairRecordBytes S r).1 > limits.maxLogicalKeyBytes ∨
    (repairRecordBytes S r).2 > limits.maxMetadataBytes ∨
    (S.batch.marshal ⟨repairBatchMessageType, from_, r.version, more, [r]⟩).length >
      limits.maxFrameBytes

/-- The call from this version fails: its first record is beyond a limit, or there is
none and the empty batch does not fit a frame. -/
def Journal.Stuck (S : Stdlib) (limits : RepairLimits) (j : Journal) (from_ : Version) :
    Prop :=
  match after Record.version from_ j.records with
  | r :: rest => r.Exceeds S limits from_ (decide (0 < rest.length))
  | [] => (S.batch.marshal ⟨repairBatchMessageType, from_, from_, false, []⟩).length >
      limits.maxFrameBytes

section Failures

variable {S : Stdlib} {limits : RepairLimits} {from_ : Version}

/-- A record that is valid under some limits is refused under others for its size. -/
theorem Record.Valid.exceeds {own other : Limits} {r : Record} (h : r.Valid S own)
    (hno : ¬ r.Valid S other) : r.ExceedsLimits S other := by
  by_contra hfits
  refine hno ?_
  unfold Record.ExceedsLimits at hfits
  simp only [not_or, not_lt] at hfits
  obtain ⟨hspace, hkey, hauthority, hsize⟩ := hfits
  unfold Record.Valid Record.validate validateAuthorityID at h ⊢
  simp only [except_guard_ok, except_bind_ok, Limits.normalized_normalized] at h ⊢
  obtain ⟨hns, _, hk, _, _, ⟨hid, _, hprint, _⟩, hzero, _, hblob, _⟩ := h
  exact ⟨hns, not_lt.mpr hspace, hk, not_lt.mpr hkey, (), ⟨hid, not_lt.mpr hauthority,
    hprint, trivial⟩, hzero, (), hblob, not_lt.mpr hsize, trivial⟩

/-- The batch of one record can be sent unless the record is beyond a limit. -/
theorem exceeds_of_not_sendable {own : Limits} {r : Record} {rest : List Record}
    (hvalid : r.Valid S own) (habove : from_ < r.version)
    (h : ¬ (candidateBatch from_ (r :: rest) 1).Sendable S limits.normalized) :
    r.Exceeds S limits.normalized from_ (decide (0 < rest.length)) := by
  have hbatch : candidateBatch from_ (r :: rest) 1 =
      ⟨repairBatchMessageType, from_, r.version, decide (0 < rest.length), [r]⟩ := by
    unfold candidateBatch
    simp [lastVersion]
  by_contra hfits
  unfold Record.Exceeds at hfits
  simp only [not_or, not_lt] at hfits
  obtain ⟨hrecord, hlogical, hmetadata, hframe⟩ := hfits
  refine h ⟨_, (encodeRepairBatch_eq_ok rfl).mpr ⟨?_, rfl, ?_⟩⟩
  · rw [hbatch, RepairLimits.normalized_normalized]
    have hcount : (1 : Int) ≤ limits.normalized.maxRecords := by
      have hpos : 0 < orDefault limits.maxRecords defaultMaxRepairRecords :=
        orDefault_pos _ _ (by decide)
      exact hpos
    refine ⟨⟨?_, ?_, ?_⟩, ?_, ?_, ?_, rfl⟩
    · simpa using hcount
    · simpa [logicalBytes] using hlogical
    · simpa [metadataBytes] using hmetadata
    · exact List.pairwise_singleton _ _
    · simpa using habove
    · intro t ht
      rw [List.mem_singleton.mp ht]
      by_contra hno
      exact hrecord (hvalid.exceeds hno)
  · rw [hbatch, RepairLimits.normalized_normalized]
    exact hframe

/-- The empty batch can be sent in a frame that it fits. -/
theorem sendable_empty
    (h : (S.batch.marshal ⟨repairBatchMessageType, from_, from_, false, []⟩).length ≤
      limits.normalized.maxFrameBytes) :
    (candidateBatch from_ [] 0).Sendable S limits.normalized := by
  refine ⟨_, (encodeRepairBatch_eq_ok rfl).mpr ⟨?_, rfl, ?_⟩⟩
  · rw [RepairLimits.normalized_normalized]
    refine ⟨⟨?_, ?_, ?_⟩, Ascending.nil, nofun, nofun, rfl⟩
    all_goals exact le_of_lt (orDefault_pos _ _ (by decide))
  · rw [RepairLimits.normalized_normalized]
    exact h

/-- Selection fails only at the first record. -/
theorem selectRecords_error (rest : List Record) :
    ∀ {selected : List Record} {e : Error},
      selectRecords S limits.normalized from_ (selected ++ rest).length selected rest =
        .error e →
      selected = [] ∧
        ¬ (candidateBatch from_ rest 1).Sendable S limits.normalized := by
  induction rest with
  | nil =>
    intro selected e h
    cases h
  | cons record rest ih =>
    intro selected e h
    have hbatch := @candidateBatch_concat from_ selected rest record
    unfold selectRecords at h
    simp only at h
    rw [← hbatch] at h
    cases hchecks : (do
        validateRepairBatch S (candidateBatch from_ (selected ++ record :: rest)
          (selected.length + 1)) limits.normalized
        encodeRepairBatch S (candidateBatch from_ (selected ++ record :: rest)
          (selected.length + 1)) limits.normalized) with
    | error e' =>
      rw [hchecks] at h
      simp only at h
      by_cases hnil : selected = []
      · refine ⟨hnil, ?_⟩
        rintro ⟨payload, hpayload⟩
        subst hnil
        have hok := (checks_eq_ok rfl).mpr hpayload
        rw [List.nil_append, List.length_nil, hok] at hchecks
        cases hchecks
      · rw [if_neg (fun h0 => hnil (List.length_eq_zero_iff.mp h0))] at h
        cases h
    | ok payload =>
      rw [hchecks] at h
      simp only at h
      have hshift : selected ++ record :: rest = (selected ++ [record]) ++ rest := by simp
      rw [hshift] at h
      have hnil := (ih h).1
      simp at hnil

/-- The call without its checks of the context, the file and the floor. -/
theorem Journal.repairBatch_open {o : Oracle} (ho : o (.ctxErr 2) = .proceed)
    {j : Journal} {file : File} (hopen : j.ensureOpen = .ok file) (hfloor : j.floor ≤ from_)
    {remaining : List Record} (hremaining : after Record.version from_ j.records = remaining) :
    j.repairBatch S o from_ limits = (do
      let selected ← selectRecords S limits.normalized from_ remaining.length [] remaining
      let batch : RepairBatch := ⟨repairBatchMessageType, from_,
        Log.lastVersion Record.version from_ selected,
        decide (selected.length < remaining.length), selected⟩
      let _ ← encodeRepairBatch S batch limits.normalized
      .ok batch) := by
  have hfilter : (j.records.filter fun r => r.version.compare from_ > 0) = remaining := by
    rw [← hremaining]
    unfold after
    simp only [Version.compare_pos]
  unfold Journal.repairBatch
  rw [ctxCheck_ok.mpr ho, hopen, hfilter]
  change (if from_.compare j.floor < 0 then _ else _) = _
  rw [if_neg (by rw [Version.compare_lt_zero]; exact not_lt.mpr hfloor)]

/-- A selection that can be sent is the batch of the call. -/
theorem Journal.repairBatch_of_selected {o : Oracle} (ho : o (.ctxErr 2) = .proceed)
    {j : Journal} {file : File} (hopen : j.ensureOpen = .ok file) (hfloor : j.floor ≤ from_)
    {remaining : List Record} (hremaining : after Record.version from_ j.records = remaining)
    {n : Nat} (hn : n ≤ remaining.length)
    (hselect : selectRecords S limits.normalized from_ remaining.length [] remaining =
      .ok (remaining.take n))
    (hsend : (candidateBatch from_ remaining n).Sendable S limits.normalized) :
    j.repairBatch S o from_ limits = .ok (candidateBatch from_ remaining n) := by
  obtain ⟨payload, hpayload⟩ := hsend
  have hlen : (remaining.take n).length = n := by
    rw [List.length_take, min_eq_left hn]
  rw [Journal.repairBatch_open ho hopen hfloor hremaining, hselect]
  unfold candidateBatch at hpayload ⊢
  change (do
    let _ ← encodeRepairBatch S ⟨repairBatchMessageType, from_,
      Log.lastVersion Record.version from_ (remaining.take n),
      decide ((remaining.take n).length < remaining.length), remaining.take n⟩
      limits.normalized
    Except.ok _) = _
  rw [hlen, hpayload]
  rfl

/-- A call on an open journal fails only where it is stuck. -/
theorem Journal.repairBatch_error {o : Oracle} (ho : o (.ctxErr 2) = .proceed)
    {j : Journal} {file : File} (hopen : j.ensureOpen = .ok file)
    (hvalid : ∀ r ∈ j.records, r.Valid S j.limits) (hfloor : j.floor ≤ from_) {e : Error}
    (h : j.repairBatch S o from_ limits = .error e) :
    j.Stuck S limits.normalized from_ := by
  unfold Journal.Stuck
  cases hremaining : after Record.version from_ j.records with
  | nil =>
    by_contra hfits
    have hsend : (candidateBatch from_ [] 0).Sendable S limits.normalized :=
      sendable_empty (not_lt.mp hfits)
    have hok := Journal.repairBatch_of_selected ho hopen hfloor hremaining (le_refl 0) rfl
      hsend
    rw [hok] at h
    cases h
  | cons r rest =>
    have hr : r ∈ after Record.version from_ j.records := by
      rw [hremaining]
      exact List.mem_cons_self
    obtain ⟨hin, hlt⟩ := mem_after.mp hr
    refine exceeds_of_not_sendable (hvalid r hin) hlt ?_
    cases hselect : selectRecords S limits.normalized from_ (r :: rest).length []
        (r :: rest) with
    | error e' => exact (selectRecords_error (r :: rest) hselect).2
    | ok selected =>
      obtain ⟨n, _, hn, hout, hsome, hshorter, _⟩ :=
        @selectRecords_ok S limits from_ (r :: rest) [] selected hselect
      have hpos : 0 < n := by
        by_contra h0
        cases hsome (by omega)
      rw [hout, List.nil_append] at hselect
      have hok := Journal.repairBatch_of_selected ho hopen hfloor hremaining hn hselect
        (hshorter n hpos (le_refl n))
      rw [hok] at h
      cases h

end Failures

/-! ## What the batches hold -/

/-- What every batch of the calls satisfies. -/
structure RepairBatch.Deliverable (S : Stdlib) (limits : RepairLimits) (b : RepairBatch) :
    Prop where
  admissible : b.Admissible S limits.normalized
  fits : ∃ payload, encodeRepairBatch S b limits = .ok payload ∧
    payload.length ≤ limits.normalized.maxFrameBytes
  advances : b.more = true → b.from_ < b.to_
  ready : b.records ≠ [] → b.delivery S b.from_ limits = .ok .ready

/-- The batches hold the tail of the journal, up to the version where the calls
are stuck if they fail. -/
def BatchRun.Covers (S : Stdlib) (limits : RepairLimits) (j : Journal) (from_ : Version)
    (run : BatchRun) : Prop :=
  match run.failed with
  | none => run.batches.flatMap RepairBatch.records = after Record.version from_ j.records
  | some (at_, _) =>
    run.batches.flatMap RepairBatch.records ++ after Record.version at_ j.records =
      after Record.version from_ j.records ∧ j.Stuck S limits.normalized at_

section Iteration

variable {S : Stdlib} {limits : RepairLimits} {o : Oracle} {j : Journal} {from_ : Version}

/-- A batch with records leads past its start. -/
theorem RepairBatch.Admissible.advances {b : RepairBatch} (h : b.Admissible S limits)
    (hne : b.records ≠ []) : b.from_ < b.to_ := by
  rw [h.ends]
  exact base_lt_lastVersion h.above hne

/-- The batch of one call. -/
theorem Journal.repairBatch_deliverable {b : RepairBatch}
    (h : j.repairBatch S o from_ limits = .ok b) :
    b.Deliverable S limits ∧ from_ ≤ b.to_ ∧
      b.records ++ after Record.version b.to_ j.records =
        after Record.version from_ j.records ∧
      (b.more = true → b.records ≠ []) ∧
      (b.more = false → b.records = after Record.version from_ j.records) := by
  obtain ⟨_, n, rfl, hselects, payload, hpayload⟩ := Journal.repairBatch_ok h
  obtain ⟨hadm, hmarshal, hlen⟩ := (encodeRepairBatch_eq_ok rfl).mp hpayload
  rw [RepairLimits.normalized_normalized] at hadm hlen
  have hmore : (candidateBatch from_ (after Record.version from_ j.records) n).more = true →
      (candidateBatch from_ (after Record.version from_ j.records) n).records ≠ [] := by
    intro hlt hnil
    have hlt' : n < (after Record.version from_ j.records).length := of_decide_eq_true hlt
    cases List.take_eq_nil_iff.mp hnil with
    | inl h0 =>
      rw [hselects.some h0] at hlt'
      simp at hlt'
    | inr hempty =>
      rw [hempty] at hlt'
      simp at hlt'
  refine ⟨⟨hadm, ⟨payload, (encodeRepairBatch_eq_ok rfl).mpr ⟨hadm, hmarshal, hlen⟩, hlen⟩,
    fun hlt => hadm.advances (hmore hlt), ?_⟩, ?_, ?_, hmore, ?_⟩
  · intro hne
    rw [RepairBatch.delivery_eq hadm, if_neg (not_le.mpr (hadm.advances hne)), if_pos rfl]
  · rw [hadm.ends]
    exact base_le_lastVersion hadm.above
  · rw [hadm.ends]
    exact prefix_append_after j.log.ascending (List.take_prefix _ _)
  · intro hall
    have hge := of_decide_eq_false hall
    exact List.take_of_length_le (not_lt.mp hge)

/-- As many calls as there are records left, and one more, are enough. -/
theorem Journal.repairBatches_covers (ho : o (.ctxErr 2) = .proceed) {file : File}
    (hopen : j.ensureOpen = .ok file) (hvalid : ∀ r ∈ j.records, r.Valid S j.limits) :
    ∀ (fuel : Nat) (from_ : Version), j.floor ≤ from_ →
      (after Record.version from_ j.records).length < fuel →
      ∃ run, j.repairBatches S o limits fuel from_ = some run ∧
        (∀ b ∈ run.batches, b.Deliverable S limits) ∧ run.Covers S limits j from_ := by
  intro fuel
  induction fuel with
  | zero =>
    intro from_ _ hfuel
    omega
  | succ fuel ih =>
    intro from_ hfloor hfuel
    unfold Journal.repairBatches
    cases hcall : j.repairBatch S o from_ limits with
    | error e =>
      refine ⟨⟨[], some (from_, e)⟩, rfl, by simp, ?_⟩
      exact ⟨List.nil_append _, Journal.repairBatch_error ho hopen hvalid hfloor hcall⟩
    | ok b =>
      obtain ⟨hgood, hto, hjoin, hsome, hall⟩ := Journal.repairBatch_deliverable hcall
      cases hmore : b.more with
      | false =>
        refine ⟨⟨[b], none⟩, by simp [hmore], ?_, ?_⟩
        · intro t ht
          rw [List.mem_singleton.mp ht]
          exact hgood
        · show [b].flatMap RepairBatch.records = _
          simpa using hall hmore
      | true =>
        -- the batch holds a record, so fewer are left
        have hshorter : (after Record.version b.to_ j.records).length < fuel := by
          have hlen := congrArg List.length hjoin
          have hpos := List.length_pos_of_ne_nil (hsome hmore)
          rw [List.length_append] at hlen
          omega
        obtain ⟨run, hrun, hgoods, hcovers⟩ := ih b.to_ (le_trans hfloor hto) hshorter
        refine ⟨⟨b :: run.batches, run.failed⟩, by simp [hmore, hrun], ?_, ?_⟩
        · intro t ht
          cases List.mem_cons.mp ht with
          | inl heq =>
            rw [heq]
            exact hgood
          | inr hmem => exact hgoods t hmem
        · unfold BatchRun.Covers at hcovers ⊢
          cases hfailed : run.failed with
          | none =>
            rw [hfailed] at hcovers
            simp only at hcovers ⊢
            rw [List.flatMap_cons, hcovers, hjoin]
          | some failure =>
            rw [hfailed] at hcovers
            simp only at hcovers ⊢
            rw [List.flatMap_cons, List.append_assoc, hcovers.1, hjoin]
            exact ⟨rfl, hcovers.2⟩

end Iteration

/-- The calls on an open journal, whose records were valid when they were appended or
read, from a version at or above its floor come to an end.  They hold the records
after the start in order, each once, or they fail at a record that alone exceeds a
limit; every batch is within the limits, fits a frame, advances when there is more,
and is ready at its own start. -/
theorem batch_iteration {S : Stdlib} {o : Oracle} (ho : o (.ctxErr 2) = .proceed)
    {j : Journal} {file : File} (hopen : j.ensureOpen = .ok file)
    (hvalid : ∀ r ∈ j.records, r.Valid S j.limits) (limits : RepairLimits)
    {from_ : Version} (hfloor : j.floor ≤ from_) :
    ∃ run, j.repairBatches S o limits (j.records.length + 1) from_ = some run ∧
      (∀ b ∈ run.batches, b.Deliverable S limits) ∧ run.Covers S limits j from_ := by
  have hfuel : (after Record.version from_ j.records).length < j.records.length + 1 :=
    Nat.lt_succ_of_le (List.length_filter_le _ _)
  exact Journal.repairBatches_covers ho hopen hvalid _ _ hfloor hfuel

namespace Sample

/-- One record in a batch. -/
def oneEach : RepairLimits := ⟨1, 0, 0, 0, Limits.unset⟩

end Sample

open Sample in
/-- Two records come in two batches. -/
theorem batch_iteration_sample :
    (twoRecords.obj.repairBatches goStdlib Oracle.none oneEach 3 Version.zero).map
        (fun run => (run.batches.map RepairBatch.records, run.failed)) =
      some ([[first], [second]], none) ∧
    ∃ run, twoRecords.obj.repairBatches goStdlib Oracle.none oneEach
        (twoRecords.obj.records.length + 1) Version.zero = some run ∧
      (∀ b ∈ run.batches, b.Deliverable goStdlib oneEach) ∧
      run.Covers goStdlib oneEach twoRecords.obj Version.zero := by
  refine ⟨by decide +kernel, ?_⟩
  have hsynced : twoRecords.obj.Synced goStdlib twoRecords.fs := twoRecords_synced
  obtain ⟨ino, hopen, _⟩ := hsynced.ensureOpen
  exact batch_iteration rfl hopen hsynced.valid oneEach (by decide +kernel)

end StreamHive.Lifecycle
