import StreamHive.Lifecycle.CheckpointFile

/-!
# Repair frames

The three messages of lifecycle repair and their JSON codecs: an ordered journal
batch, a checkpoint snapshot and an acknowledgement.  Encoding validates a
message under the sender's limits; decoding validates it again under the
receiver's, which may be different ones.

## Main results

* `validateRepairBatch_eq_ok` — a batch passes validation exactly when it is
  within its bounds, ascends from its start and ends at its last record;
* `decodeRepairFrame_batch`, `decodeRepairFrame_snapshot`,
  `decodeRepairFrame_ack` — a receiver that accepts an encoded message gets the
  message that was encoded, whatever its own limits.
-/

namespace StreamHive.Lifecycle

open Verified ByteString Effect Log

variable {batch : RepairBatch} {snapshot : RepairSnapshot}

/-! ## Limits -/

def defaultMaxRepairRecords : Int := 128
def defaultMaxRepairLogicalKeyBytes : Int := 64 * 2 ^ 10
def defaultMaxRepairMetadataBytes : Int := 64 * 2 ^ 10
def defaultMaxRepairFrameBytes : Int := 128 * 2 ^ 10

/-- Bounds on one batch or snapshot. -/
structure RepairLimits where
  maxRecords : Int
  maxLogicalKeyBytes : Int
  maxMetadataBytes : Int
  maxFrameBytes : Int
  recordLimits : Limits
  deriving DecidableEq, Repr

namespace RepairLimits

def normalized (l : RepairLimits) : RepairLimits where
  maxRecords := orDefault l.maxRecords defaultMaxRepairRecords
  maxLogicalKeyBytes := orDefault l.maxLogicalKeyBytes defaultMaxRepairLogicalKeyBytes
  maxMetadataBytes := orDefault l.maxMetadataBytes defaultMaxRepairMetadataBytes
  maxFrameBytes := orDefault l.maxFrameBytes defaultMaxRepairFrameBytes
  recordLimits := l.recordLimits.normalized

@[simp] theorem normalized_normalized (l : RepairLimits) :
    l.normalized.normalized = l.normalized := by
  simp [normalized, orDefault_idem]

/-- Every bound zero: the defaults apply throughout. -/
def unset : RepairLimits := ⟨0, 0, 0, 0, Limits.unset⟩

end RepairLimits

/-! ## Validation -/

variable (S : Stdlib)

/-- The logical bytes and the metadata bytes of one record. -/
def repairRecordBytes (record : Record) : Nat × Nat :=
  (record.nameSpace.length + record.logicalKey.length, (S.record.marshal record).length)

/-- The loop of `validateRepairBatch`, from the previous version and the sums so
far to the last version. -/
def validateRepairRecords (limits : RepairLimits) :
    Version → Nat → Nat → List Record → Except Error Version
  | previous, _, _, [] => .ok previous
  | previous, logicalBytes, metadataBytes, record :: rest =>
    if record.version.compare previous ≤ 0 then
      .error .repairOrder
    else do
      record.validate S limits.recordLimits
      let logicalBytes := logicalBytes + (repairRecordBytes S record).1
      let metadataBytes := metadataBytes + (repairRecordBytes S record).2
      if logicalBytes > limits.maxLogicalKeyBytes ∨
          metadataBytes > limits.maxMetadataBytes then
        .error .repairLimit
      else
        validateRepairRecords limits record.version logicalBytes metadataBytes rest

def validateRepairBatch (batch : RepairBatch) (limits : RepairLimits) : Except Error Unit :=
  if batch.records.length > limits.maxRecords then
    .error .repairLimit
  else do
    let previous ← validateRepairRecords S limits batch.from_ 0 0 batch.records
    if batch.to_ ≠ previous then
      .error .repairWatermarkMismatch
    else
      .ok ()

/-- The size loop of `normalizeRepairSnapshot`. -/
def checkRepairSizes (limits : RepairLimits) : Nat → Nat → List Record → Except Error Unit
  | _, _, [] => .ok ()
  | logicalBytes, metadataBytes, record :: rest =>
    let logicalBytes := logicalBytes + (repairRecordBytes S record).1
    let metadataBytes := metadataBytes + (repairRecordBytes S record).2
    if logicalBytes > limits.maxLogicalKeyBytes ∨
        metadataBytes > limits.maxMetadataBytes then
      .error .repairLimit
    else
      checkRepairSizes limits logicalBytes metadataBytes rest

def normalizeRepairSnapshot (snapshot : RepairSnapshot) (limits : RepairLimits) :
    Except Error RepairSnapshot := do
  let checkpoint ← normalizeCheckpoint S ⟨snapshot.watermark, snapshot.records⟩
    limits.recordLimits
  if checkpoint.records.length > limits.maxRecords then
    .error .repairLimit
  else do
    checkRepairSizes S limits 0 0 checkpoint.records
    .ok ⟨repairSnapshotMessageType, snapshot.watermark, checkpoint.records⟩

/-! ## Codecs -/

/-- An empty type selects the expected one; any other must be the expected
one. -/
def expectType (type expected : Bytes) : Except Error Unit :=
  if type ≠ [] ∧ type ≠ expected then .error .repairMessageType else .ok ()

/-- The bound on an encoded payload. -/
def boundFrame (limits : RepairLimits) (payload : Bytes) : Except Error Bytes :=
  if payload.length > limits.maxFrameBytes then
    .error .repairFrameTooLarge
  else
    .ok payload

def encodeRepairBatch (batch : RepairBatch) (limits : RepairLimits) : Except Error Bytes := do
  expectType batch.type repairBatchMessageType
  let batch := { batch with type := repairBatchMessageType }
  validateRepairBatch S batch limits.normalized
  boundFrame limits.normalized (S.batch.marshal batch)

def encodeRepairSnapshot (snapshot : RepairSnapshot) (limits : RepairLimits) :
    Except Error Bytes := do
  expectType snapshot.type repairSnapshotMessageType
  let normalized ← normalizeRepairSnapshot S snapshot limits.normalized
  boundFrame limits.normalized (S.snapshot.marshal normalized)

def encodeRepairAck (ack : RepairAck) (limits : RepairLimits) : Except Error Bytes := do
  expectType ack.type repairAckMessageType
  boundFrame limits.normalized (S.ack.marshal { ack with type := repairAckMessageType })

/-- One JSON value of the expected shape and nothing after it. -/
def decodeRepairEnvelope {α : Type} (json : Json α) (payload : Bytes) : Except Error α :=
  match json.decode payload with
  | .one value => .ok value
  | .malformed => .error (.joined .repairMalformed .json)
  | .second => .error (.joined .repairMalformed .repairWatermarkMismatch)
  | .garbage => .error (.joined .repairMalformed .json)

def decodeRepairType (payload : Bytes) : Except Error Bytes :=
  match S.messageType payload with
  | .one type => if type = [] then .error .repairMalformed else .ok type
  | .malformed => .error (.joined .repairMalformed .json)
  | .second => .error .repairMalformed
  | .garbage => .error (.joined .repairMalformed .json)

def decodeRepairBatch (payload : Bytes) (limits : RepairLimits) : Except Error RepairBatch := do
  let payload ← boundFrame limits.normalized payload
  let batch ← decodeRepairEnvelope S.batch payload
  if batch.type ≠ repairBatchMessageType then
    .error .repairMessageType
  else do
    validateRepairBatch S batch limits.normalized
    .ok batch

def decodeRepairSnapshot (payload : Bytes) (limits : RepairLimits) :
    Except Error RepairSnapshot := do
  let payload ← boundFrame limits.normalized payload
  let snapshot ← decodeRepairEnvelope S.snapshot payload
  if snapshot.type ≠ repairSnapshotMessageType then
    .error .repairMessageType
  else
    normalizeRepairSnapshot S snapshot limits.normalized

def decodeRepairAck (payload : Bytes) (limits : RepairLimits) : Except Error RepairAck := do
  let payload ← boundFrame limits.normalized payload
  let ack ← decodeRepairEnvelope S.ack payload
  if ack.type ≠ repairAckMessageType then
    .error .repairMessageType
  else
    .ok ack

/-- The message union at the wire boundary. -/
structure RepairFrame where
  type : Bytes
  batch : Option RepairBatch
  snapshot : Option RepairSnapshot
  ack : Option RepairAck
  deriving DecidableEq, Repr

namespace RepairFrame

/-- A frame that holds a batch. -/
def ofBatch (batch : RepairBatch) : RepairFrame :=
  ⟨repairBatchMessageType, some batch, none, none⟩

/-- A frame that holds a snapshot. -/
def ofSnapshot (snapshot : RepairSnapshot) : RepairFrame :=
  ⟨repairSnapshotMessageType, none, some snapshot, none⟩

/-- A frame that holds an acknowledgement. -/
def ofAck (ack : RepairAck) : RepairFrame :=
  ⟨repairAckMessageType, none, none, some ack⟩

end RepairFrame

/-- Encode exactly one message. -/
def encodeRepairFrame (frame : RepairFrame) (limits : RepairLimits) : Except Error Bytes :=
  match frame.batch, frame.snapshot, frame.ack with
  | some batch, none, none => do
    expectType frame.type repairBatchMessageType
    encodeRepairBatch S batch limits
  | none, some snapshot, none => do
    expectType frame.type repairSnapshotMessageType
    encodeRepairSnapshot S snapshot limits
  | none, none, some ack => do
    expectType frame.type repairAckMessageType
    encodeRepairAck S ack limits
  | _, _, _ => .error .repairMalformed

def decodeRepairFrame (payload : Bytes) (limits : RepairLimits) : Except Error RepairFrame := do
  let payload ← boundFrame limits.normalized payload
  let type ← decodeRepairType S payload
  if type = repairBatchMessageType then do
    let batch ← decodeRepairBatch S payload limits.normalized
    .ok (RepairFrame.ofBatch batch)
  else if type = repairSnapshotMessageType then do
    let snapshot ← decodeRepairSnapshot S payload limits.normalized
    .ok (RepairFrame.ofSnapshot snapshot)
  else if type = repairAckMessageType then do
    let ack ← decodeRepairAck S payload limits.normalized
    .ok (RepairFrame.ofAck ack)
  else
    .error .repairMessageType

/-! ## What validation establishes -/

/-- The logical bytes of some records. -/
def logicalBytes (records : List Record) : Nat :=
  (records.map fun r => (repairRecordBytes S r).1).sum

/-- The metadata bytes of some records. -/
def metadataBytes (records : List Record) : Nat :=
  (records.map fun r => (repairRecordBytes S r).2).sum

/-- The records are within the byte bounds. -/
structure RepairLimits.Holds (S : Stdlib) (limits : RepairLimits) (records : List Record) :
    Prop where
  count : records.length ≤ limits.maxRecords
  logical : logicalBytes S records ≤ limits.maxLogicalKeyBytes
  metadata : metadataBytes S records ≤ limits.maxMetadataBytes

/-- The batch passes validation. -/
structure RepairBatch.Admissible (S : Stdlib) (limits : RepairLimits)
    (batch : RepairBatch) : Prop where
  bounds : limits.Holds S batch.records
  ascending : Ascending Record.version batch.records
  above : ∀ r ∈ batch.records, batch.from_ < r.version
  valid : ∀ r ∈ batch.records, r.Valid S limits.recordLimits
  ends : batch.to_ = lastVersion Record.version batch.from_ batch.records

section Validation

variable {S : Stdlib} {limits : RepairLimits}

/-- The two sums of the loops, bounded after every record, are bounded at the
end. -/
private theorem sums_cons {l m : Nat} {record : Record} {rest : List Record} :
    (¬ ((l + (repairRecordBytes S record).1 : Nat) > limits.maxLogicalKeyBytes ∨
          (m + (repairRecordBytes S record).2 : Nat) > limits.maxMetadataBytes) ∧
        (rest = [] ∨ (l + (repairRecordBytes S record).1 + logicalBytes S rest : Nat) ≤
            limits.maxLogicalKeyBytes ∧
          (m + (repairRecordBytes S record).2 + metadataBytes S rest : Nat) ≤
            limits.maxMetadataBytes)) ↔
      (l + logicalBytes S (record :: rest) : Nat) ≤ limits.maxLogicalKeyBytes ∧
        (m + metadataBytes S (record :: rest) : Nat) ≤ limits.maxMetadataBytes := by
  have hl : logicalBytes S (record :: rest) =
      (repairRecordBytes S record).1 + logicalBytes S rest := rfl
  have hm : metadataBytes S (record :: rest) =
      (repairRecordBytes S record).2 + metadataBytes S rest := rfl
  rw [hl, hm]
  constructor
  · rintro ⟨hhead, hrest | hrest⟩
    · subst hrest
      have hl0 : logicalBytes S [] = 0 := rfl
      have hm0 : metadataBytes S [] = 0 := rfl
      omega
    · omega
  · intro h
    exact ⟨by omega, .inr (by omega)⟩

theorem validateRepairRecords_eq_ok {records : List Record} :
    ∀ {previous last : Version} {l m : Nat},
      validateRepairRecords S limits previous l m records = .ok last ↔
        (Ascending Record.version records ∧ (∀ r ∈ records, previous < r.version)) ∧
          (∀ r ∈ records, r.Valid S limits.recordLimits) ∧
          (records = [] ∨ (l + logicalBytes S records : Nat) ≤ limits.maxLogicalKeyBytes ∧
            (m + metadataBytes S records : Nat) ≤ limits.maxMetadataBytes) ∧
          last = lastVersion Record.version previous records := by
  induction records with
  | nil =>
    intro previous last l m
    simp [validateRepairRecords, Ascending.nil, eq_comm]
  | cons r rest ih =>
    intro previous last l m
    unfold validateRepairRecords
    rw [except_guard_ok, Version.compare_le_zero, not_le, except_bind_ok]
    have hlast : lastVersion Record.version previous (r :: rest) =
        lastVersion Record.version r.version rest := by
      rw [← List.singleton_append, lastVersion_append]
      rfl
    constructor
    · rintro ⟨hnew, _, hvalid, h⟩
      rw [except_guard_ok, ih] at h
      obtain ⟨hhead, ⟨hasc, habove⟩, hrest, hsums, rfl⟩ := h
      refine ⟨⟨List.pairwise_cons.mpr ⟨habove, hasc⟩, ?_⟩,
        List.forall_mem_cons.mpr ⟨hvalid, hrest⟩,
        .inr (sums_cons.mp ⟨hhead, hsums⟩), hlast.symm⟩
      exact List.forall_mem_cons.mpr ⟨hnew, fun t ht => lt_trans hnew (habove t ht)⟩
    · rintro ⟨⟨hasc, habove⟩, hvalid, hsums, rfl⟩
      have hboth := sums_cons.mpr (hsums.resolve_left (by simp))
      refine ⟨habove r (by simp), (), hvalid r (by simp), ?_⟩
      rw [except_guard_ok, ih]
      exact ⟨hboth.1, ⟨hasc.tail, hasc.head_lt⟩, fun t ht => hvalid t (by simp [ht]),
        hboth.2, hlast⟩

theorem checkRepairSizes_eq_ok {records : List Record} :
    ∀ {l m : Nat}, checkRepairSizes S limits l m records = .ok () ↔
      (records = [] ∨ (l + logicalBytes S records : Nat) ≤ limits.maxLogicalKeyBytes ∧
        (m + metadataBytes S records : Nat) ≤ limits.maxMetadataBytes) := by
  induction records with
  | nil =>
    intro l m
    simp [checkRepairSizes]
  | cons r rest ih =>
    intro l m
    unfold checkRepairSizes
    simp only
    rw [except_guard_ok, ih, sums_cons]
    simp

/-- With positive bounds the empty sums are within them. -/
private theorem bytes_bounded {records : List Record} (limits : RepairLimits) :
    (records = [] ∨
        (0 + logicalBytes S records : Nat) ≤ limits.normalized.maxLogicalKeyBytes ∧
        (0 + metadataBytes S records : Nat) ≤ limits.normalized.maxMetadataBytes) ↔
      logicalBytes S records ≤ limits.normalized.maxLogicalKeyBytes ∧
        metadataBytes S records ≤ limits.normalized.maxMetadataBytes := by
  have hlpos : 0 < limits.normalized.maxLogicalKeyBytes := orDefault_pos _ _ (by decide)
  have hmpos : 0 < limits.normalized.maxMetadataBytes := orDefault_pos _ _ (by decide)
  rw [Nat.zero_add, Nat.zero_add]
  constructor
  · rintro (rfl | h)
    · have hl0 : logicalBytes S [] = 0 := rfl
      have hm0 : metadataBytes S [] = 0 := rfl
      omega
    · exact h
  · exact .inr

/-- A batch passes validation exactly when it is within its bounds, ascends from
its start and ends at its last record. -/
theorem validateRepairBatch_eq_ok :
    validateRepairBatch S batch limits.normalized = .ok () ↔
      batch.Admissible S limits.normalized := by
  unfold validateRepairBatch
  rw [except_guard_ok, except_bind_ok, not_lt]
  constructor
  · rintro ⟨hcount, last, hrecords, hends⟩
    rw [except_guard_ok, not_not] at hends
    rw [validateRepairRecords_eq_ok, bytes_bounded] at hrecords
    obtain ⟨⟨hasc, habove⟩, hvalid, hsums, rfl⟩ := hrecords
    exact ⟨⟨hcount, hsums.1, hsums.2⟩, hasc, habove, hvalid, hends.1⟩
  · intro h
    refine ⟨h.bounds.count, lastVersion Record.version batch.from_ batch.records, ?_, ?_⟩
    · rw [validateRepairRecords_eq_ok, bytes_bounded]
      exact ⟨⟨h.ascending, h.above⟩, h.valid, ⟨h.bounds.logical, h.bounds.metadata⟩, rfl⟩
    · rw [except_guard_ok, not_not]
      exact ⟨h.ends, rfl⟩

theorem RepairBatch.Admissible.clean (h : batch.Admissible S limits) :
    Record.AllClean S batch.records :=
  fun r hr => (h.valid r hr).clean

/-- Normalization returns the listing of a checkpoint within the bounds. -/
theorem normalizeRepairSnapshot_eq_ok {out : RepairSnapshot} :
    normalizeRepairSnapshot S snapshot limits.normalized = .ok out ↔
      CheckpointRecords S limits.recordLimits snapshot.watermark snapshot.records ∧
        limits.normalized.Holds S (tableOf snapshot.records).values ∧
        out = ⟨repairSnapshotMessageType, snapshot.watermark,
          (tableOf snapshot.records).values⟩ := by
  unfold normalizeRepairSnapshot
  rw [except_bind_ok]
  constructor
  · rintro ⟨c, hnormal, h⟩
    obtain ⟨hrecords, rfl⟩ := normalizeCheckpoint_eq_ok.mp hnormal
    rw [except_guard_ok, except_bind_ok, not_lt] at h
    obtain ⟨hcount, _, hsizes, hout⟩ := h
    rw [checkRepairSizes_eq_ok, bytes_bounded] at hsizes
    exact ⟨checkpointRecords_normalized.mp hrecords, ⟨hcount, hsizes.1, hsizes.2⟩,
      (Except.ok.inj hout).symm⟩
  · rintro ⟨hrecords, hholds, rfl⟩
    refine ⟨_, normalizeCheckpoint_eq_ok.mpr
      ⟨checkpointRecords_normalized.mpr hrecords, rfl⟩, ?_⟩
    rw [except_guard_ok, except_bind_ok, not_lt]
    refine ⟨hholds.count, (), ?_, rfl⟩
    rw [checkRepairSizes_eq_ok, bytes_bounded]
    exact ⟨hholds.logical, hholds.metadata⟩

end Validation

/-! ## Encoding and decoding -/

section Codec

variable {S : Stdlib} {limits : RepairLimits} {payload : Bytes}

theorem expectType_self (expected : Bytes) : expectType expected expected = .ok () := by
  unfold expectType
  rw [if_neg]
  rintro ⟨_, h⟩
  exact h rfl

theorem boundFrame_eq_ok {out : Bytes} :
    boundFrame limits payload = .ok out ↔
      payload.length ≤ limits.maxFrameBytes ∧ out = payload := by
  unfold boundFrame
  rw [except_guard_ok, not_lt, Except.ok.injEq, eq_comm]

theorem boundFrame_bind {α : Type} {f : Bytes → Except Error α} {a : α} :
    (boundFrame limits payload >>= f) = .ok a ↔
      payload.length ≤ limits.maxFrameBytes ∧ f payload = .ok a := by
  rw [except_bind_ok]
  constructor
  · rintro ⟨out, hbound, h⟩
    obtain ⟨hlen, rfl⟩ := boundFrame_eq_ok.mp hbound
    exact ⟨hlen, h⟩
  · rintro ⟨hlen, h⟩
    exact ⟨payload, boundFrame_eq_ok.mpr ⟨hlen, rfl⟩, h⟩

theorem encodeRepairBatch_eq_ok (htype : batch.type = repairBatchMessageType) :
    encodeRepairBatch S batch limits = .ok payload ↔
      batch.Admissible S limits.normalized ∧ payload = S.batch.marshal batch ∧
        payload.length ≤ limits.normalized.maxFrameBytes := by
  have hsame : { batch with type := repairBatchMessageType } = batch := by
    rw [← htype]
  unfold encodeRepairBatch
  rw [hsame, htype, expectType_self, except_bind_ok]
  constructor
  · rintro ⟨_, _, h⟩
    rw [except_bind_ok] at h
    obtain ⟨_, hvalid, h⟩ := h
    obtain ⟨hlen, rfl⟩ := boundFrame_eq_ok.mp h
    exact ⟨validateRepairBatch_eq_ok.mp hvalid, rfl, hlen⟩
  · rintro ⟨hadm, rfl, hlen⟩
    refine ⟨(), rfl, ?_⟩
    rw [except_bind_ok]
    exact ⟨(), validateRepairBatch_eq_ok.mpr hadm, boundFrame_eq_ok.mpr ⟨hlen, rfl⟩⟩

theorem encodeRepairSnapshot_eq_ok (htype : snapshot.type = repairSnapshotMessageType) :
    encodeRepairSnapshot S snapshot limits = .ok payload ↔
      CheckpointRecords S limits.recordLimits snapshot.watermark snapshot.records ∧
        limits.normalized.Holds S (tableOf snapshot.records).values ∧
        payload = S.snapshot.marshal ⟨repairSnapshotMessageType, snapshot.watermark,
          (tableOf snapshot.records).values⟩ ∧
        payload.length ≤ limits.normalized.maxFrameBytes := by
  unfold encodeRepairSnapshot
  rw [htype, expectType_self, except_bind_ok]
  constructor
  · rintro ⟨_, _, h⟩
    rw [except_bind_ok] at h
    obtain ⟨normal, hnormal, h⟩ := h
    obtain ⟨hlen, rfl⟩ := boundFrame_eq_ok.mp h
    obtain ⟨hrecords, hholds, rfl⟩ := normalizeRepairSnapshot_eq_ok.mp hnormal
    exact ⟨hrecords, hholds, rfl, hlen⟩
  · rintro ⟨hrecords, hholds, rfl, hlen⟩
    refine ⟨(), rfl, ?_⟩
    rw [except_bind_ok]
    exact ⟨_, normalizeRepairSnapshot_eq_ok.mpr ⟨hrecords, hholds, rfl⟩,
      boundFrame_eq_ok.mpr ⟨hlen, rfl⟩⟩

theorem encodeRepairAck_eq_ok {watermark : Version} :
    encodeRepairAck S ⟨repairAckMessageType, watermark⟩ limits = .ok payload ↔
      payload = S.ack.marshal ⟨repairAckMessageType, watermark⟩ ∧
        payload.length ≤ limits.normalized.maxFrameBytes := by
  unfold encodeRepairAck
  rw [expectType_self, except_bind_ok]
  constructor
  · rintro ⟨_, _, h⟩
    obtain ⟨hlen, rfl⟩ := boundFrame_eq_ok.mp h
    exact ⟨rfl, hlen⟩
  · rintro ⟨rfl, hlen⟩
    exact ⟨(), rfl, boundFrame_eq_ok.mpr ⟨hlen, rfl⟩⟩

private theorem types_distinct :
    repairBatchMessageType ≠ [] ∧ repairSnapshotMessageType ≠ [] ∧
      repairAckMessageType ≠ [] ∧ repairSnapshotMessageType ≠ repairBatchMessageType ∧
      repairAckMessageType ≠ repairBatchMessageType ∧
      repairAckMessageType ≠ repairSnapshotMessageType := by
  decide

theorem decodeRepairType_eq_ok {type : Bytes} (h : S.messageType payload = .one type)
    (hne : type ≠ []) : decodeRepairType S payload = .ok type := by
  unfold decodeRepairType
  rw [h]
  simp only
  rw [if_neg hne]

/-- A receiver accepts the payload of a batch exactly when the batch is within
its own limits, and gets that batch. -/
theorem decodeRepairFrame_batch (hS : S.Lawful) (htype : batch.type = repairBatchMessageType)
    (hclean : Record.AllClean S batch.records) {frame : RepairFrame} :
    decodeRepairFrame S (S.batch.marshal batch) limits = .ok frame ↔
      (S.batch.marshal batch).length ≤ limits.normalized.maxFrameBytes ∧
        batch.Admissible S limits.normalized ∧ frame = RepairFrame.ofBatch batch := by
  have hkind := decodeRepairType_eq_ok (hS.batchType batch htype hclean)
    (by rw [htype]; exact types_distinct.1)
  have hdecode : decodeRepairEnvelope S.batch (S.batch.marshal batch) = .ok batch := by
    unfold decodeRepairEnvelope
    rw [hS.batch.decode_marshal batch ⟨htype, hclean⟩]
  unfold decodeRepairFrame decodeRepairBatch
  rw [boundFrame_bind, hkind, except_ok_bind, if_pos htype, except_bind_ok]
  simp only [RepairLimits.normalized_normalized, boundFrame_bind, hdecode, except_ok_bind,
    except_guard_ok]
  constructor
  · rintro ⟨hlen, b, ⟨_, _, hb⟩, hframe⟩
    obtain ⟨_, hvalid, hb⟩ := except_bind_ok.mp hb
    rw [← Except.ok.inj hb] at hframe
    exact ⟨hlen, validateRepairBatch_eq_ok.mp hvalid, (Except.ok.inj hframe).symm⟩
  · rintro ⟨hlen, hadm, rfl⟩
    refine ⟨hlen, batch, ⟨hlen, not_not.mpr htype, ?_⟩, rfl⟩
    exact except_bind_ok.mpr ⟨(), validateRepairBatch_eq_ok.mpr hadm, rfl⟩

/-- A receiver accepts the payload of a snapshot exactly when the snapshot is
within its own limits, and gets its listing. -/
theorem decodeRepairFrame_snapshot (hS : S.Lawful)
    (htype : snapshot.type = repairSnapshotMessageType)
    (hclean : Record.AllClean S snapshot.records) {frame : RepairFrame} :
    decodeRepairFrame S (S.snapshot.marshal snapshot) limits = .ok frame ↔
      (S.snapshot.marshal snapshot).length ≤ limits.normalized.maxFrameBytes ∧
        CheckpointRecords S limits.recordLimits snapshot.watermark snapshot.records ∧
        limits.normalized.Holds S (tableOf snapshot.records).values ∧
        frame = RepairFrame.ofSnapshot ⟨repairSnapshotMessageType, snapshot.watermark,
          (tableOf snapshot.records).values⟩ := by
  have hkind := decodeRepairType_eq_ok (hS.snapshotType snapshot htype hclean)
    (by rw [htype]; exact types_distinct.2.1)
  have hdecode : decodeRepairEnvelope S.snapshot (S.snapshot.marshal snapshot) =
      .ok snapshot := by
    unfold decodeRepairEnvelope
    rw [hS.snapshot.decode_marshal snapshot ⟨htype, hclean⟩]
  have hother : ¬ snapshot.type = repairBatchMessageType := by
    rw [htype]
    exact types_distinct.2.2.2.1
  unfold decodeRepairFrame decodeRepairSnapshot
  rw [boundFrame_bind, hkind, except_ok_bind, if_neg hother, if_pos htype, except_bind_ok]
  simp only [RepairLimits.normalized_normalized, boundFrame_bind, hdecode, except_ok_bind,
    except_guard_ok, normalizeRepairSnapshot_eq_ok]
  constructor
  · rintro ⟨hlen, s, ⟨_, _, hrecords, hholds, rfl⟩, hframe⟩
    exact ⟨hlen, hrecords, hholds, (Except.ok.inj hframe).symm⟩
  · rintro ⟨hlen, hrecords, hholds, rfl⟩
    exact ⟨hlen, _, ⟨hlen, not_not.mpr htype, hrecords, hholds, rfl⟩, rfl⟩

/-- A receiver accepts the payload of an acknowledgement exactly when it fits its
frame bound, and gets that acknowledgement. -/
theorem decodeRepairFrame_ack (hS : S.Lawful) {watermark : Version} {frame : RepairFrame} :
    decodeRepairFrame S (S.ack.marshal ⟨repairAckMessageType, watermark⟩) limits =
        .ok frame ↔
      (S.ack.marshal ⟨repairAckMessageType, watermark⟩).length ≤
          limits.normalized.maxFrameBytes ∧
        frame = RepairFrame.ofAck ⟨repairAckMessageType, watermark⟩ := by
  have hkind := decodeRepairType_eq_ok
    (hS.ackType (RepairAck.mk repairAckMessageType watermark) rfl) types_distinct.2.2.1
  have hdecode : decodeRepairEnvelope S.ack (S.ack.marshal ⟨repairAckMessageType, watermark⟩) =
      .ok ⟨repairAckMessageType, watermark⟩ := by
    unfold decodeRepairEnvelope
    rw [hS.ack.decode_marshal (RepairAck.mk repairAckMessageType watermark) rfl]
  have hbatch := types_distinct.2.2.2.2.1
  have hsnapshot := types_distinct.2.2.2.2.2
  unfold decodeRepairFrame decodeRepairAck
  rw [boundFrame_bind, hkind, except_ok_bind, if_neg hbatch, if_neg hsnapshot, if_pos rfl,
    except_bind_ok]
  simp only [RepairLimits.normalized_normalized, boundFrame_bind, hdecode, except_ok_bind,
    except_guard_ok]
  constructor
  · rintro ⟨hlen, ack, ⟨_, _, hack⟩, hframe⟩
    rw [← Except.ok.inj hack] at hframe
    exact ⟨hlen, (Except.ok.inj hframe).symm⟩
  · rintro ⟨hlen, rfl⟩
    exact ⟨hlen, _, ⟨hlen, not_not.mpr rfl, rfl⟩, rfl⟩

end Codec

end StreamHive.Lifecycle
