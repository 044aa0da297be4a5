import StreamHive.Lifecycle.RepairFrame

/-!
# The repair frame codec

The encoder and the decoder of a repair frame each validate, sort and bound on their
own.  What the encoder lets through the decoder gives back: the tags that the caller
left empty are filled in, and the records of a snapshot stand in key order.

## Main result

* `repair_frame_codec` — the round trip, and what every decoded frame satisfies.
-/

namespace StreamHive.Lifecycle

open Verified ByteString Effect Log

variable {snapshot : RepairSnapshot}

section Codec

variable {S : Stdlib} {limits : RepairLimits} {payload : Bytes} {frame : RepairFrame}

/-! ## Encoding -/

/-- The tag is the expected one, or empty. -/
def Tagged (type expected : Bytes) : Prop := type = [] ∨ type = expected

theorem expectType_eq_ok {type expected : Bytes} :
    expectType type expected = .ok () ↔ Tagged type expected := by
  unfold expectType Tagged
  rw [except_guard_ok]
  by_cases hnil : type = []
  · simp [hnil]
  · by_cases hsame : type = expected
    · simp [hsame]
    · simp [hnil, hsame]

/-- One message is in the frame, and it is encoded. -/
theorem encodeRepairFrame_cases (h : encodeRepairFrame S frame limits = .ok payload) :
    (∃ batch, frame.batch = some batch ∧ Tagged frame.type repairBatchMessageType ∧
        encodeRepairBatch S batch limits = .ok payload) ∨
      (∃ snapshot, frame.snapshot = some snapshot ∧
        Tagged frame.type repairSnapshotMessageType ∧
        encodeRepairSnapshot S snapshot limits = .ok payload) ∨
      (∃ ack, frame.ack = some ack ∧ Tagged frame.type repairAckMessageType ∧
        encodeRepairAck S ack limits = .ok payload) := by
  unfold encodeRepairFrame at h
  split at h
  · next batch hbatch _ _ =>
      obtain ⟨_, htype, h⟩ := except_bind_ok.mp h
      exact .inl ⟨batch, hbatch, expectType_eq_ok.mp htype, h⟩
  · next snapshot _ hsnapshot _ =>
      obtain ⟨_, htype, h⟩ := except_bind_ok.mp h
      exact .inr (.inl ⟨snapshot, hsnapshot, expectType_eq_ok.mp htype, h⟩)
  · next ack _ _ hack =>
      obtain ⟨_, htype, h⟩ := except_bind_ok.mp h
      exact .inr (.inr ⟨ack, hack, expectType_eq_ok.mp htype, h⟩)
  · cases h

/-- The encoder fills in an empty tag. -/
theorem encodeRepairBatch_tagged {batch : RepairBatch}
    (h : encodeRepairBatch S batch limits = .ok payload) :
    Tagged batch.type repairBatchMessageType ∧
      encodeRepairBatch S { batch with type := repairBatchMessageType } limits =
        .ok payload := by
  unfold encodeRepairBatch at h ⊢
  obtain ⟨_, htype, h⟩ := except_bind_ok.mp h
  refine ⟨expectType_eq_ok.mp htype, ?_⟩
  rw [expectType_self]
  exact h

theorem encodeRepairSnapshot_tagged (h : encodeRepairSnapshot S snapshot limits = .ok payload) :
    Tagged snapshot.type repairSnapshotMessageType ∧
      encodeRepairSnapshot S { snapshot with type := repairSnapshotMessageType } limits =
        .ok payload := by
  unfold encodeRepairSnapshot at h ⊢
  obtain ⟨_, htype, h⟩ := except_bind_ok.mp h
  refine ⟨expectType_eq_ok.mp htype, ?_⟩
  rw [expectType_self]
  exact h

theorem encodeRepairAck_tagged {ack : RepairAck}
    (h : encodeRepairAck S ack limits = .ok payload) :
    Tagged ack.type repairAckMessageType ∧
      encodeRepairAck S { ack with type := repairAckMessageType } limits =
        .ok payload := by
  unfold encodeRepairAck at h ⊢
  obtain ⟨_, htype, h⟩ := except_bind_ok.mp h
  refine ⟨expectType_eq_ok.mp htype, ?_⟩
  rw [expectType_self]
  exact h

/-! ## Decoding -/

/-- What the decoder checks of a batch. -/
theorem decodeRepairBatch_admissible {batch : RepairBatch}
    (h : decodeRepairBatch S payload limits.normalized = .ok batch) :
    batch.Admissible S limits.normalized := by
  unfold decodeRepairBatch at h
  rw [RepairLimits.normalized_normalized, except_bind_ok] at h
  obtain ⟨_, _, h⟩ := h
  obtain ⟨found, _, h⟩ := except_bind_ok.mp h
  rw [except_guard_ok, except_bind_ok] at h
  obtain ⟨_, _, hvalid, hsame⟩ := h
  rw [← Except.ok.inj hsame]
  exact validateRepairBatch_eq_ok.mp hvalid

/-- What the decoder makes of a snapshot. -/
theorem decodeRepairSnapshot_sorted
    (h : decodeRepairSnapshot S payload limits.normalized = .ok snapshot) :
    KeyedMap.KeyAscending LogicalKey.cmp Record.key snapshot.records ∧
      ∀ r ∈ snapshot.records, r.version ≤ snapshot.watermark := by
  unfold decodeRepairSnapshot at h
  rw [RepairLimits.normalized_normalized, except_bind_ok] at h
  obtain ⟨_, _, h⟩ := h
  obtain ⟨found, _, h⟩ := except_bind_ok.mp h
  rw [except_guard_ok, normalizeRepairSnapshot_eq_ok] at h
  obtain ⟨_, hrecords, _, rfl⟩ := h
  exact ⟨KeyedMap.values_ascending _, hrecords.values.bounded⟩

/-- A decoded frame is within the frame bound and holds one decoded message. -/
theorem decodeRepairFrame_cases (h : decodeRepairFrame S payload limits = .ok frame) :
    payload.length ≤ limits.normalized.maxFrameBytes ∧
      ((∃ batch, decodeRepairBatch S payload limits.normalized = .ok batch ∧
          frame = RepairFrame.ofBatch batch) ∨
        (∃ snapshot, decodeRepairSnapshot S payload limits.normalized = .ok snapshot ∧
          frame = RepairFrame.ofSnapshot snapshot) ∨
        (∃ ack, decodeRepairAck S payload limits.normalized = .ok ack ∧
          frame = RepairFrame.ofAck ack)) := by
  unfold decodeRepairFrame at h
  rw [except_bind_ok] at h
  obtain ⟨found, hbound, h⟩ := h
  obtain ⟨hlen, rfl⟩ := boundFrame_eq_ok.mp hbound
  refine ⟨hlen, ?_⟩
  rw [except_bind_ok] at h
  obtain ⟨type, _, h⟩ := h
  split at h
  · obtain ⟨batch, hbatch, hframe⟩ := except_bind_ok.mp h
    exact .inl ⟨batch, hbatch, (Except.ok.inj hframe).symm⟩
  · split at h
    · obtain ⟨snapshot, hsnapshot, hframe⟩ := except_bind_ok.mp h
      exact .inr (.inl ⟨snapshot, hsnapshot, (Except.ok.inj hframe).symm⟩)
    · split at h
      · obtain ⟨ack, hack, hframe⟩ := except_bind_ok.mp h
        exact .inr (.inr ⟨ack, hack, (Except.ok.inj hframe).symm⟩)
      · cases h

/-! ## The round trip -/

/-- The frame that comes out is the frame that went in: its tags are filled in, and the
records of a snapshot are in key order. -/
inductive SameFrame (frame : RepairFrame) : RepairFrame → Prop
  | batch {batch : RepairBatch} (hframe : frame.batch = some batch)
      (htype : Tagged batch.type repairBatchMessageType) :
      SameFrame frame (.ofBatch { batch with type := repairBatchMessageType })
  | snapshot {snapshot : RepairSnapshot} {records : List Record}
      (hframe : frame.snapshot = some snapshot)
      (htype : Tagged snapshot.type repairSnapshotMessageType)
      (hsame : records.Perm snapshot.records) (hsorted : records.Pairwise Record.keyLE) :
      SameFrame frame (.ofSnapshot ⟨repairSnapshotMessageType, snapshot.watermark, records⟩)
  | ack {ack : RepairAck} (hframe : frame.ack = some ack)
      (htype : Tagged ack.type repairAckMessageType) :
      SameFrame frame (.ofAck { ack with type := repairAckMessageType })

/-- The payload is read back as the frame, and the frame is encoded to it again. -/
def Returns (S : Stdlib) (limits : RepairLimits) (payload : Bytes) (frame' : RepairFrame) :
    Prop :=
  payload.length ≤ limits.normalized.maxFrameBytes ∧
    decodeRepairFrame S payload limits = .ok frame' ∧
    encodeRepairFrame S frame' limits = .ok payload

theorem returns_batch (hS : S.Lawful) {batch : RepairBatch}
    (htype : batch.type = repairBatchMessageType)
    (h : encodeRepairBatch S batch limits = .ok payload) :
    Returns S limits payload (.ofBatch batch) := by
  obtain ⟨hadmissible, rfl, hlen⟩ := (encodeRepairBatch_eq_ok htype).mp h
  refine ⟨hlen, (decodeRepairFrame_batch hS htype hadmissible.clean).mpr
    ⟨hlen, hadmissible, rfl⟩, ?_⟩
  show (do expectType repairBatchMessageType repairBatchMessageType
           encodeRepairBatch S batch limits) = _
  rw [expectType_self]
  exact h

/-- The snapshot as the encoder writes it: tagged, with its records in key order. -/
def RepairSnapshot.listed (s : RepairSnapshot) : RepairSnapshot :=
  ⟨repairSnapshotMessageType, s.watermark, (tableOf s.records).values⟩

@[simp] theorem tableOf_listed (s : RepairSnapshot) :
    tableOf s.listed.records = tableOf s.records := KeyedMap.putAll_values _

theorem returns_snapshot (hS : S.Lawful) (htype : snapshot.type = repairSnapshotMessageType)
    (h : encodeRepairSnapshot S snapshot limits = .ok payload) :
    Returns S limits payload (.ofSnapshot snapshot.listed) := by
  obtain ⟨hrecords, hholds, rfl, hlen⟩ := (encodeRepairSnapshot_eq_ok htype).mp h
  have hlisted : CheckpointRecords S limits.recordLimits snapshot.listed.watermark
      snapshot.listed.records := hrecords.values
  have hsame : snapshot.listed.listed = snapshot.listed := by
    unfold RepairSnapshot.listed
    rw [show tableOf (tableOf snapshot.records).values = tableOf snapshot.records from
      KeyedMap.putAll_values _]
  have hbounds : limits.normalized.Holds S (tableOf snapshot.listed.records).values := by
    rw [tableOf_listed]
    exact hholds
  have hdecode := @decodeRepairFrame_snapshot snapshot.listed S limits hS rfl hlisted.clean
    (.ofSnapshot snapshot.listed)
  have hencode := @encodeRepairSnapshot_eq_ok snapshot.listed S limits
    (S.snapshot.marshal snapshot.listed) rfl
  refine ⟨hlen, hdecode.mpr ⟨hlen, hlisted, hbounds, congrArg _ hsame.symm⟩, ?_⟩
  show (do expectType repairSnapshotMessageType repairSnapshotMessageType
           encodeRepairSnapshot S snapshot.listed limits) = _
  rw [expectType_self]
  exact hencode.mpr ⟨hlisted, hbounds, congrArg _ hsame.symm, hlen⟩

theorem returns_ack (hS : S.Lawful) {watermark : Version}
    (h : encodeRepairAck S ⟨repairAckMessageType, watermark⟩ limits = .ok payload) :
    Returns S limits payload (.ofAck ⟨repairAckMessageType, watermark⟩) := by
  obtain ⟨rfl, hlen⟩ := encodeRepairAck_eq_ok.mp h
  refine ⟨hlen, (decodeRepairFrame_ack hS).mpr ⟨hlen, rfl⟩, ?_⟩
  show (do expectType repairAckMessageType repairAckMessageType
           encodeRepairAck S ⟨repairAckMessageType, watermark⟩ limits) = _
  rw [expectType_self]
  exact h

end Codec

/-- A payload of the encoder fits the frame bound, is decoded to the same frame, and
that frame is encoded to the same payload.  Every decoded batch is within all bounds
and goes up from its start to its end; every decoded snapshot lists distinct keys in
order, at versions up to its watermark. -/
theorem repair_frame_codec {S : Stdlib} (hS : S.Lawful) (limits : RepairLimits) :
    (∀ frame payload, encodeRepairFrame S frame limits = .ok payload →
      payload.length ≤ limits.normalized.maxFrameBytes ∧
        ∃ frame', SameFrame frame frame' ∧ decodeRepairFrame S payload limits = .ok frame' ∧
          encodeRepairFrame S frame' limits = .ok payload) ∧
    (∀ payload frame, decodeRepairFrame S payload limits = .ok frame →
      payload.length ≤ limits.normalized.maxFrameBytes ∧
        (∀ batch, frame.batch = some batch → batch.Admissible S limits.normalized) ∧
        (∀ snapshot, frame.snapshot = some snapshot →
          KeyedMap.KeyAscending LogicalKey.cmp Record.key snapshot.records ∧
            ∀ r ∈ snapshot.records, r.version ≤ snapshot.watermark)) := by
  constructor
  · intro frame payload h
    rcases encodeRepairFrame_cases h with ⟨batch, hframe, _, hbatch⟩ |
      ⟨snapshot, hframe, _, hsnapshot⟩ | ⟨ack, hframe, _, hack⟩
    · obtain ⟨htype, hfilled⟩ := encodeRepairBatch_tagged hbatch
      obtain ⟨hlen, hdecode, hencode⟩ := returns_batch hS rfl hfilled
      exact ⟨hlen, _, .batch hframe htype, hdecode, hencode⟩
    · obtain ⟨htype, hfilled⟩ := encodeRepairSnapshot_tagged hsnapshot
      obtain ⟨hlen, hdecode, hencode⟩ := returns_snapshot hS rfl hfilled
      have hdistinct := ((encodeRepairSnapshot_eq_ok rfl).mp hfilled).1.distinct
      have hvalues : snapshot.records.insertionSort Record.keyLE =
          (tableOf snapshot.records).values := insertionSort_eq_values hdistinct
      refine ⟨hlen, _, .snapshot hframe htype ?_ ?_, hdecode, hencode⟩
      · rw [← hvalues]
        exact List.perm_insertionSort _ _
      · rw [← hvalues]
        exact List.pairwise_insertionSort _ _
    · obtain ⟨htype, hfilled⟩ := encodeRepairAck_tagged hack
      obtain ⟨hlen, hdecode, hencode⟩ := returns_ack hS hfilled
      exact ⟨hlen, _, .ack hframe htype, hdecode, hencode⟩
  · intro payload frame h
    obtain ⟨hlen, hkind⟩ := decodeRepairFrame_cases h
    refine ⟨hlen, ?_, ?_⟩
    · intro found hfound
      rcases hkind with ⟨batch, hbatch, rfl⟩ | ⟨snapshot, _, rfl⟩ | ⟨ack, _, rfl⟩
      · cases hfound
        exact decodeRepairBatch_admissible hbatch
      · cases hfound
      · cases hfound
    · intro found hfound
      rcases hkind with ⟨batch, _, rfl⟩ | ⟨snapshot, hsnapshot, rfl⟩ | ⟨ack, _, rfl⟩
      · cases hfound
      · cases hfound
        exact decodeRepairSnapshot_sorted hsnapshot
      · cases hfound

namespace Sample

/-- Two tombstones, not in key order. -/
def unsorted : RepairFrame :=
  ⟨[], none, some ⟨[], ⟨1, 2⟩, [⟨ascii "ns", ascii "b", .deleted, [], ⟨1, 1⟩, ascii "node"⟩,
    ⟨ascii "ns", ascii "a", .deleted, [], ⟨1, 2⟩, ascii "node"⟩]⟩, none⟩

end Sample

theorem repair_frame_codec_sample :
    (encodeRepairFrame goStdlib Sample.unsorted RepairLimits.unset).isOk = true ∧
      ∃ payload frame', encodeRepairFrame goStdlib Sample.unsorted RepairLimits.unset =
          .ok payload ∧ SameFrame Sample.unsorted frame' ∧
        decodeRepairFrame goStdlib payload RepairLimits.unset = .ok frame' := by
  have hok : (encodeRepairFrame goStdlib Sample.unsorted RepairLimits.unset).isOk = true := by
    decide +kernel
  obtain ⟨payload, hpayload⟩ := except_isOk hok
  obtain ⟨_, frame', hsame, hdecode, _⟩ :=
    (repair_frame_codec goStdlib_lawful RepairLimits.unset).1 _ _ hpayload
  exact ⟨hok, payload, frame', hpayload, hsame, hdecode⟩

end StreamHive.Lifecycle
