import StreamHive.Lifecycle.ApplierRun
import StreamHive.Lifecycle.RepairCodec
import StreamHive.Lifecycle.Session

/-!
# Repair after a lost acknowledgement

A replica records its own watermark for the source before it writes the
acknowledgement.  When the connection is lost in between, the source's watermark for
the replica stays behind the replica's, and without startup reconciliation the source
plans the next frame from there.  The replica classifies a batch by where it starts and
ends: it takes one that ends at or before its watermark for a duplicate and one that
starts there for ready, and refuses everything else.  So a batch that carries the lost
records and a later one is refused, and since neither side changes its watermark on a
refusal, it is planned and refused again.

## Main results

* `RepairBatch.classified_iff` — which batches the replica accepts;
* `Selects.ends_within` — when a planned batch ends at or before a version;
* `lost_ack_resumes` — the condition under which the next frame is accepted;
* `SessionState.handle_refused` — a frame that is not accepted changes nothing at the replica;
* `lost_ack_refused` — a lost acknowledgement, one more record, and the refusal.
-/

namespace StreamHive.Lifecycle

open Verified ByteString Effect FileSystem Log

variable {limits : RepairLimits}

variable {S : Stdlib}

/-! ## The receiver -/

/-- The receiver decodes the frame; a batch is ready or a duplicate. -/
def SessionState.Accepts (S : Stdlib) (t : SessionState) (payload : Bytes) : Prop :=
  ∃ frame, decodeRepairFrame S payload t.node.repairLimits = .ok frame ∧
    ∀ batch, frame.batch = some batch →
      ∃ delivery, batch.delivery S t.watermark t.node.repairLimits = .ok delivery

/-- A batch is classified without an error if it ends at or before the watermark or
starts there. -/
theorem RepairBatch.classified_iff {b : RepairBatch} (h : b.Admissible S limits.normalized)
    (expected : Version) :
    (∃ delivery, b.delivery S expected limits = .ok delivery) ↔
      b.to_ ≤ expected ∨ b.from_ = expected := by
  rw [RepairBatch.delivery_eq h]
  by_cases hto : b.to_ ≤ expected
  · rw [if_pos hto]
    exact ⟨fun _ => .inl hto, fun _ => ⟨_, rfl⟩⟩
  rw [if_neg hto]
  by_cases hfrom : b.from_ = expected
  · rw [if_pos hfrom]
    exact ⟨fun _ => .inr hfrom, fun _ => ⟨_, rfl⟩⟩
  rw [if_neg hfrom]
  constructor
  · rintro ⟨delivery, hd⟩
    cases hd
  · rintro (h | h)
    · exact absurd h hto
    · exact absurd h hfrom

/-- A frame that is not accepted is refused with nothing changed, so neither watermark
moves and the next attempt meets the same frame. -/
theorem SessionState.handle_refused (F : Faults) (t : SessionState) (payload : Bytes) :
    t.Accepts S payload ∨ ∃ e, RepairSession.handle S F payload t = .error e t := by
  rcases RepairSession.handle_cases (S := S) F payload t with
    ⟨e, hrun, _⟩ | ⟨frame, hframe, _, hrun⟩
  · exact .inr ⟨e, hrun⟩
  rw [hrun]
  rcases (decodeRepairFrame_cases hframe).2 with ⟨b, _, rfl⟩ | ⟨_, _, rfl⟩ | ⟨_, _, rfl⟩
  · cases hdelivery : b.delivery S t.watermark t.node.repairLimits with
    | ok delivery =>
      refine .inl ⟨_, hframe, fun batch hbatch => ?_⟩
      cases hbatch
      exact ⟨delivery, hdelivery⟩
    | error e =>
      refine .inr ⟨e, ?_⟩
      show RepairSession.handleBatch S F b t = _
      unfold RepairSession.handleBatch
      rw [run_bind_get]
      exact run_bind_error (run_attempt_error hdelivery)
  · exact .inl ⟨_, hframe, fun _ hbatch => by cases hbatch⟩
  · exact .inl ⟨_, hframe, fun _ hbatch => by cases hbatch⟩

/-! ## The sender -/

theorem Selects.unique {from_ : Version} {remaining : List Record} {n m : Nat}
    (h : Selects S limits from_ remaining n) (h' : Selects S limits from_ remaining m) :
    n = m := by
  have hle : ∀ {n m : Nat}, Selects S limits from_ remaining n →
      Selects S limits from_ remaining m → m ≤ n := by
    intro n m h h'
    by_contra hlt
    have hwithin := h'.within
    rcases h.stops with hall | hstop
    · omega
    · exact hstop (h'.shorter (n + 1) (by omega) (by omega))
  exact le_antisymm (hle h' h) (hle h h')

/-- The selected records end at or before `w` if there is none after `w`, or if the
records up to `w` and one more do not fit a batch. -/
theorem Selects.ends_within {from_ w : Version} {remaining : List Record} {n : Nat}
    (h : Selects S limits from_ remaining n) (hasc : Ascending Record.version remaining)
    (hw : from_ ≤ w) :
    lastVersion Record.version from_ (remaining.take n) ≤ w ↔
      after Record.version w remaining = [] ∨
        ∃ k, 0 < k ∧ k ≤ (upTo Record.version w remaining).length + 1 ∧
          ¬ (candidateBatch from_ remaining k).Sendable S limits := by
  have hsplit := congrArg List.length (upTo_append_after hasc w)
  rw [List.length_append] at hsplit
  have hwithin := h.within
  rw [lastVersion_take_le hasc hw hwithin]
  constructor
  · intro hshort
    rcases h.stops with hall | hstop
    · refine .inl (List.eq_nil_of_length_eq_zero ?_)
      omega
    · exact .inr ⟨n + 1, by omega, by omega, hstop⟩
  · rintro (hnil | ⟨k, hpos, hk, hunsent⟩)
    · rw [hnil, List.length_nil] at hsplit
      omega
    · by_contra hlong
      exact hunsent (h.shorter k hpos (by omega))

/-! ## The next frame -/

/-- The frame planned from the sender's watermark does not run past the receiver's
watermark `w`: the sender has to send a checkpoint, or its watermark is `w`, or it has
no record after `w`, or the records up to `w` and the next one do not fit one batch. -/
def SessionState.Resumes (S : Stdlib) (s : SessionState) (w : Version) : Prop :=
  s.watermark < s.node.journal.floor ∨ s.watermark = w ∨
    after Record.version w s.node.journal.records = [] ∨
    ∃ k, 0 < k ∧
      k ≤ (within Record.version s.watermark w s.node.journal.records).length + 1 ∧
      ¬ (candidateBatch s.watermark
          (after Record.version s.watermark s.node.journal.records) k).Sendable S
        s.node.repairLimits.normalized

/-- The records after the sender's watermark. -/
abbrev SessionState.remaining (s : SessionState) : List Record :=
  after Record.version s.watermark s.node.journal.records

/-- The planned frame is within the receiver's limits. -/
structure SessionState.HasRoom (S : Stdlib) (t s : SessionState) (plan : RepairPlan) : Prop where
  frame : plan.payload.length ≤ t.node.repairLimits.normalized.maxFrameBytes
  batch : s.node.journal.floor ≤ s.watermark →
    ∀ n, Selects S s.node.repairLimits.normalized s.watermark s.remaining n →
      validateRepairBatch S (candidateBatch s.watermark s.remaining n)
        t.node.repairLimits.normalized = .ok ()
  checkpoint : s.watermark < s.node.journal.floor → ∀ c, s.session.snapshot = some c →
    CheckpointRecords S t.node.repairLimits.recordLimits c.watermark (tableOf c.records).values ∧
      t.node.repairLimits.normalized.Holds S (tableOf c.records).values

section Plans

variable {s t : SessionState}

/-- A checkpoint is decoded, whatever the watermarks. -/
theorem accepts_checkpoint_iff (hS : S.Lawful) {c : RepairSnapshot}
    (htype : c.type = repairSnapshotMessageType) (hclean : Record.AllClean S c.records) :
    t.Accepts S (S.snapshot.marshal c) ↔
      (S.snapshot.marshal c).length ≤ t.node.repairLimits.normalized.maxFrameBytes ∧
        CheckpointRecords S t.node.repairLimits.recordLimits c.watermark c.records ∧
        t.node.repairLimits.normalized.Holds S (tableOf c.records).values := by
  constructor
  · rintro ⟨frame, hframe, _⟩
    obtain ⟨hlen, hrecords, hholds, _⟩ := (decodeRepairFrame_snapshot hS htype hclean).mp hframe
    exact ⟨hlen, hrecords, hholds⟩
  · rintro ⟨hlen, hrecords, hholds⟩
    refine ⟨_, (decodeRepairFrame_snapshot hS htype hclean).mpr ⟨hlen, hrecords, hholds, rfl⟩, ?_⟩
    intro batch hbatch
    cases hbatch

/-- A batch is decoded, and classified by its two ends. -/
theorem accepts_batch_iff (hS : S.Lawful) {b : RepairBatch}
    (htype : b.type = repairBatchMessageType) (hclean : Record.AllClean S b.records) :
    t.Accepts S (S.batch.marshal b) ↔
      (S.batch.marshal b).length ≤ t.node.repairLimits.normalized.maxFrameBytes ∧
        b.Admissible S t.node.repairLimits.normalized ∧
        (b.to_ ≤ t.watermark ∨ b.from_ = t.watermark) := by
  constructor
  · rintro ⟨frame, hframe, hdelivery⟩
    obtain ⟨hlen, hadm, rfl⟩ := (decodeRepairFrame_batch hS htype hclean).mp hframe
    exact ⟨hlen, hadm, (RepairBatch.classified_iff hadm _).mp (hdelivery b rfl)⟩
  · rintro ⟨hlen, hadm, hends⟩
    refine ⟨_, (decodeRepairFrame_batch hS htype hclean).mpr ⟨hlen, hadm, rfl⟩, ?_⟩
    intro batch hbatch
    cases hbatch
    exact (RepairBatch.classified_iff hadm _).mpr hends

/-- For a source whose watermark is at or behind the one of the replica, whatever it
appended since: the next frame that the source plans is accepted if and only if it is
within the replica's limits, and it does not run past the replica's watermark or the two
watermarks are equal. -/
theorem lost_ack_resumes (hS : S.Lawful) (o : Oracle) (s t : SessionState)
    (hbehind : s.watermark ≤ t.watermark) {plan : RepairPlan}
    (hplan : RepairCoordinator.plan S o s.node s.session.peerID s.session.snapshot = .ok plan) :
    t.Accepts S plan.payload ↔ t.HasRoom S s plan ∧ s.Resumes S t.watermark := by
  obtain ⟨_, _, hrest⟩ := except_bind_ok.mp hplan
  obtain ⟨_, _, hrepair⟩ := except_bind_ok.mp hrest
  have hplanned : Planned S s.node.repairLimits s.node.journal s.watermark
      s.session.snapshot plan := planRepair_ok hrepair
  cases hplanned with
  | snapshot c hsnapshot hfloor hwatermark hrecords hholds =>
    have htable : tableOf (tableOf c.records).values = tableOf c.records :=
      KeyedMap.putAll_values _
    rw [accepts_checkpoint_iff hS rfl hrecords.values.clean]
    simp only [htable]
    constructor
    · rintro ⟨hlen, hthere⟩
      refine ⟨⟨hlen, fun hle => absurd hfloor (not_lt.mpr hle), fun _ c' hc' => ?_⟩, .inl hfloor⟩
      rw [hsnapshot] at hc'
      cases hc'
      exact hthere
    · rintro ⟨hroom, _⟩
      exact ⟨hroom.frame, hroom.checkpoint hfloor c hsnapshot⟩
  | journal n hfloor hselects hadm =>
    have hasc : Ascending Record.version s.remaining := s.node.journal.log.ascending.after _
    have hends := hselects.ends_within hasc hbehind
    rw [upTo_after, after_after _ hbehind] at hends
    rw [accepts_batch_iff hS rfl hadm.clean]
    constructor
    · rintro ⟨hlen, hthere, hto⟩
      refine ⟨⟨hlen, fun _ m hm => ?_, fun hunder => absurd hfloor (not_le.mpr hunder)⟩, ?_⟩
      · rw [← hselects.unique hm]
        exact validateRepairBatch_eq_ok.mpr hthere
      · exact .inr (hto.elim (fun hto => .inr (hends.mp hto)) .inl)
    · rintro ⟨hroom, hresumes⟩
      refine ⟨hroom.frame, validateRepairBatch_eq_ok.mp (hroom.batch hfloor n hselects), ?_⟩
      rcases hresumes with hunder | heq | hrest
      · exact absurd hfloor (not_le.mpr hunder)
      · exact .inr heq
      · exact .inl (hends.mpr hrest)

end Plans

namespace Sample

/-- The source, before its first record. -/
def sending : SessionState where
  node :=
    { applier with
      watermarks := WatermarkBook.new "watermarks" ⟨0, 0, 0⟩
      repairLimits := RepairLimits.unset.normalized }
  session := ⟨ascii "b", [lifecycleCapabilityV1], none, "checkpoint",
    defaultMaxRepairFrameBytes, false, false⟩
  outbox := []

/-- Another record is appended. -/
def appending (s : SessionState) (record : Record) : SessionState :=
  finalState (SessionState.onApplier (Applier.apply goStdlib Faults.none 0
    [lifecycleCapabilityV1] record none) s)

/-- A plan that sends the records from the start. -/
def fromStart (last : Version) (records : List Record) : RepairPlan :=
  ⟨.journal, Version.zero, last, false, goStdlib.batch.marshal
    ⟨repairBatchMessageType, Version.zero, last, false, records⟩⟩

/-- The replica has applied and acknowledged the first record. -/
def acknowledged : SessionState :=
  finalState (RepairSession.handle goStdlib Faults.none
    (fromStart first.version [first]).payload
    { sending with session := { sending.session with peerID := ascii "a" } })

/-- The source sends its first record. -/
def sentFirst : SessionState :=
  finalState (RepairSession.sendNext goStdlib Faults.none (appending sending first))

/-- The acknowledgement is lost, and the source appends another record. -/
def extended : SessionState := appending sentFirst second

end Sample

open Sample in
/-- Nothing was appended since the lost acknowledgement: the source sends the same batch
again, and the replica accepts it. -/
theorem lost_ack_resumes_sample :
    sentFirst.watermark = Version.zero ∧ acknowledged.watermark = first.version ∧
      acknowledged.Accepts goStdlib (fromStart first.version [first]).payload := by
  have hmarks : sentFirst.watermark = Version.zero ∧
      acknowledged.watermark = first.version ∧
      after Record.version first.version sentFirst.node.journal.records = [] ∧
      RepairCoordinator.plan goStdlib Oracle.none sentFirst.node sentFirst.session.peerID
        sentFirst.session.snapshot = .ok (fromStart first.version [first]) := by
    decide +kernel
  obtain ⟨hsource, hreplica, hrest, hplan⟩ := hmarks
  have hroom : acknowledged.HasRoom goStdlib sentFirst (fromStart first.version [first]) := by
    refine ⟨by decide +kernel, fun _ n hn => ?_, fun hunder => ?_⟩
    · have hbatches : ∀ n ≤ sentFirst.remaining.length, validateRepairBatch goStdlib
          (candidateBatch sentFirst.watermark sentFirst.remaining n)
          acknowledged.node.repairLimits.normalized = .ok () := by decide +kernel
      exact hbatches n hn.within
    · exact absurd hunder (by decide +kernel)
  refine ⟨hsource, hreplica, (lost_ack_resumes goStdlib_lawful Oracle.none sentFirst acknowledged
    ?_ hplan).mpr ⟨hroom, .inr (.inr (.inl ?_))⟩⟩
  · rw [hsource, hreplica]
    decide
  · rw [hreplica]
    exact hrest

open Sample in
/-- The acknowledgement of the first record is lost and a second record is appended: the
source plans both from its watermark, and the replica refuses the batch. -/
theorem lost_ack_refused :
    sentFirst.outbox = [(fromStart first.version [first]).payload] ∧
      acknowledged.outbox = [ackPayload goStdlib first.version] ∧
      acknowledged.watermark = first.version ∧
      acknowledged.node.journal.records = [first] ∧
      extended.watermark = Version.zero ∧
      extended.node.journal.records = [first, second] ∧
      RepairCoordinator.plan goStdlib Oracle.none extended.node extended.session.peerID
        extended.session.snapshot = .ok (fromStart second.version [first, second]) ∧
      error? (RepairSession.handle goStdlib Faults.none
        (fromStart second.version [first, second]).payload acknowledged) =
          some .repairWatermarkMismatch := by
  decide +kernel

end StreamHive.Lifecycle
