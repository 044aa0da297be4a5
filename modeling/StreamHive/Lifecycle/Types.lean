import StreamHive.Verified.ByteString
import StreamHive.Verified.KeyedMap
import Mathlib.Data.Prod.Lex

/-!
# Lifecycle data model

Versions, limits, records, checkpoints and repair messages of the lifecycle
layer, with the errors its operations return.  Byte slices and strings are
byte strings; a nil slice and an empty one are the same value.  Sizes and
limits that the program keeps in `int` are `Int`, since a limit that is zero or
negative selects a default.

`Version.compare` is the program's three-way comparison.  The linear order on
`Version` is defined independently, and the `compare_*` lemmas let every later
proof speak of `<` and `≤`.
-/

namespace StreamHive.Lifecycle

open Verified ByteString

/-! ## Versions -/

/-- The total-order token assigned by a namespace authority. -/
structure Version where
  epoch : UInt64
  sequence : UInt64
  deriving DecidableEq, Repr

variable {v w : Version}

namespace Version

/-- Lexicographic comparison by epoch and sequence. -/
def compare (v other : Version) : Int :=
  if v.epoch < other.epoch ∨ (v.epoch = other.epoch ∧ v.sequence < other.sequence) then
    -1
  else if v.epoch > other.epoch ∨
      (v.epoch = other.epoch ∧ v.sequence > other.sequence) then
    1
  else
    0

/-- The version with both components zero. -/
def zero : Version := ⟨0, 0⟩

/-- The version is the zero token. -/
def IsZero (v : Version) : Prop := v = zero

instance (v : Version) : Decidable v.IsZero := inferInstanceAs (Decidable (v = zero))

/-- The pair of numbers that orders versions. -/
def rank (v : Version) : ℕ ×ₗ ℕ := toLex (v.epoch.toNat, v.sequence.toNat)

theorem rank_injective : Function.Injective rank := by
  intro v w h
  have hpair := Prod.mk.inj (toLex.injective h)
  have hepoch : v.epoch = w.epoch := UInt64.toNat_inj.mp hpair.1
  have hsequence : v.sequence = w.sequence := UInt64.toNat_inj.mp hpair.2
  cases v
  cases w
  simp only at hepoch hsequence
  rw [hepoch, hsequence]

instance : LinearOrder Version := LinearOrder.lift' rank rank_injective

theorem lt_iff :
    v < w ↔ v.epoch.toNat < w.epoch.toNat ∨
      (v.epoch.toNat = w.epoch.toNat ∧ v.sequence.toNat < w.sequence.toNat) := by
  change rank v < rank w ↔ _
  exact Prod.Lex.toLex_lt_toLex

theorem compare_of_lt (h : v < w) : v.compare w = -1 := by
  rw [compare, if_pos]
  rw [lt_iff] at h
  rw [UInt64.lt_iff_toNat_lt, UInt64.lt_iff_toNat_lt, ← UInt64.toNat_inj]
  exact h

theorem compare_of_gt (h : w < v) : v.compare w = 1 := by
  have hnot : ¬ v < w := lt_asymm h
  rw [lt_iff] at h hnot
  rw [compare, if_neg, if_pos]
  · simp only [gt_iff_lt, UInt64.lt_iff_toNat_lt, ← UInt64.toNat_inj]
    omega
  · simp only [UInt64.lt_iff_toNat_lt, ← UInt64.toNat_inj]
    exact hnot

theorem compare_self (v : Version) : v.compare v = 0 := by
  simp [compare]

@[simp] theorem compare_lt_zero : v.compare w < 0 ↔ v < w := by
  rcases lt_trichotomy v w with h | rfl | h
  · simp [compare_of_lt h, h]
  · simp [compare_self]
  · simp [compare_of_gt h, le_of_lt h]

@[simp] theorem compare_pos : v.compare w > 0 ↔ w < v := by
  rcases lt_trichotomy v w with h | rfl | h
  · simp [compare_of_lt h, le_of_lt h]
  · simp [compare_self]
  · simp [compare_of_gt h, h]

@[simp] theorem compare_le_zero : v.compare w ≤ 0 ↔ v ≤ w := by
  rw [← not_lt, ← not_lt]
  exact not_congr compare_pos

@[simp] theorem compare_nonneg : v.compare w ≥ 0 ↔ w ≤ v := by
  rw [ge_iff_le, ← not_lt, ← not_lt]
  exact not_congr compare_lt_zero

theorem compare_eq_zero : v.compare w = 0 ↔ v = w := by
  rcases lt_trichotomy v w with h | rfl | h
  · simp [compare_of_lt h, ne_of_lt h]
  · simp [compare_self]
  · simp [compare_of_gt h, (ne_of_lt h).symm]

theorem zero_le (v : Version) : zero ≤ v := by
  rw [← not_lt, lt_iff]
  simp [zero]

theorem not_isZero_of_lt (h : v < w) : ¬ w.IsZero := by
  intro hw
  rw [IsZero] at hw
  rw [hw] at h
  exact absurd (zero_le v) (not_le.mpr h)

end Version

/-! ## Errors -/

/-- The calls on the operating system and on the context that may fail. -/
inductive Call where
  | ctxErr (i : Nat)
  | openFile
  | stat
  | seekStart
  | seek
  | read
  | write (i : Nat)
  | sync
  | truncate
  | createTemp
  | close
  | rename
  | syncDirectory
  | reopen
  | reopenSeek
  | closeOld
  | blobGet
  | blobPut
  | blobHas
  | listKeys
  | writeFrame
  | mkdir
  | random
  deriving DecidableEq, Repr

/-- The errors of the lifecycle layer and of the packages it calls. -/
inductive Error where
  -- the environment
  | canceled
  | crash
  | panic
  | io (call : Call)
  | fileClosed
  | notExist
  | json
  -- fmt.Errorf("text: %w", cause), fmt.Errorf("%w: text: %v", sentinel, cause)
  -- and errors.Join(first, second)
  | errorf (text : String) (cause : Error)
  | detailed (sentinel : Error) (text : String) (cause : Error)
  | joined (first second : Error)
  -- model.go
  | namespaceEmpty
  | namespaceTooLarge
  | logicalKeyEmpty
  | logicalKeyTooLarge
  | authorityEmpty
  | authorityTooLarge
  | authorityNotPrintable
  | invalidState
  | invalidBlobKey
  | zeroVersion
  | recordTooLarge
  | conflict
  | duplicateLogicalKey
  -- journal.go
  | journalClosed
  | journalCorrupt
  | journalChecksum
  | journalVersionOrder
  | journalLimit
  | checkpointCorrupt
  | checkpointChecksum
  | checkpointTooLarge
  | compactionUnsafe
  | compactionNoProgress
  | compactionWatermark
  | compactionBaseMismatch
  | peerBehindWatermark
  | snapshotStale
  | nilCheckpointPath
  -- apply.go and storage
  | nilApplierBlobStore
  | lifecycleBlobMissing
  | blobNotFound
  | invalidSHA256Key
  | sha256Mismatch
  -- transport.go, repair.go and session.go
  | lifecycleCapabilityRequired
  | repairLimit
  | repairFrameTooLarge
  | repairMalformed
  | repairMessageType
  | repairOrder
  | repairWatermarkMismatch
  | repairSnapshotRequired
  | repairSnapshotWatermark
  | frameTooLarge
  -- watermark.go, membership.go and authority.go
  | nilWatermarkPath
  | watermarkCorrupt
  | watermarkChecksum
  | watermarkLimit
  | watermarkPeerInvalid
  | watermarkRegression
  | repairAcknowledgement
  | nilMembershipPath
  | membershipNotConfigured
  | membershipCorrupt
  | membershipChecksum
  | membershipLimit
  | membershipPeerInvalid
  | membershipDuplicate
  | membershipWatermarkInvalid
  | membershipBehind
  | memberAcknowledged (member : Bytes) (version target : Version)
  | nilAuthorityPath
  | authorityCorrupt
  | authorityChecksum
  | authorityLimit
  | authorityMismatch
  | authorityVersion
  | authorityExhausted
  -- lifecycle_cli.go
  | checkpointFloorMismatch (watermark floor : Version)
  -- replication/protocol.go and storage
  | replicationKeyEmpty
  | replicationKeyTooLarge
  | replicationDataTooLarge
  | replicationKeysEmpty
  | replicationTooManyKeys
  | unknownMessageType
  | messageNotApplicable
  | storageKeyEmpty
  -- errors.New("text") that no sentinel names
  | text (message : String)
  deriving DecidableEq, Repr

/-- `errors.Is`: the target occurs in the tree of wrapped errors. -/
def Error.is (e target : Error) : Bool :=
  e == target ||
    match e with
    | .errorf _ cause => cause.is target
    | .detailed sentinel _ _ => sentinel.is target
    | .joined first second => first.is target || second.is target
    | _ => false

/-! ## Limits -/

/-- Bounds on lifecycle metadata. -/
structure Limits where
  maxNamespaceBytes : Int
  maxLogicalKeyBytes : Int
  maxAuthorityIDBytes : Int
  maxRecordBytes : Int
  maxCheckpointBytes : Int
  deriving DecidableEq, Repr

def defaultMaxNamespaceBytes : Int := 128
def defaultMaxLogicalKeyBytes : Int := 1024
def defaultMaxAuthorityIDBytes : Int := 128
def defaultMaxRecordBytes : Int := 64 * 2 ^ 10
def defaultMaxCheckpointBytes : Int := 64 * 2 ^ 20
def defaultMaxJournalBytes : Int := 64 * 2 ^ 20
def defaultMaxJournalEntries : Int := 65536

/-- A limit that is not positive selects its default. -/
def orDefault (limit default : Int) : Int := if limit ≤ 0 then default else limit

theorem orDefault_pos (limit default : Int) (h : 0 < default) :
    0 < orDefault limit default := by
  unfold orDefault
  split <;> omega

theorem orDefault_idem (limit default : Int) :
    orDefault (orDefault limit default) default = orDefault limit default := by
  unfold orDefault
  split <;> simp_all

namespace Limits

def normalized (l : Limits) : Limits where
  maxNamespaceBytes := orDefault l.maxNamespaceBytes defaultMaxNamespaceBytes
  maxLogicalKeyBytes := orDefault l.maxLogicalKeyBytes defaultMaxLogicalKeyBytes
  maxAuthorityIDBytes := orDefault l.maxAuthorityIDBytes defaultMaxAuthorityIDBytes
  maxRecordBytes := orDefault l.maxRecordBytes defaultMaxRecordBytes
  maxCheckpointBytes := orDefault l.maxCheckpointBytes defaultMaxCheckpointBytes

@[simp] theorem normalized_normalized (l : Limits) :
    l.normalized.normalized = l.normalized := by
  simp [normalized, orDefault_idem]

/-- Every bound zero: the defaults apply throughout. -/
def unset : Limits := ⟨0, 0, 0, 0, 0⟩

end Limits

/-! ## Records -/

/-- The logical state of one application key.  A decoded record may carry any
text, so the two legal states are distinguished from the others. -/
inductive LifecycleState where
  | present
  | deleted
  | other (text : Bytes)
  deriving DecidableEq, Repr

/-- A logical lifecycle mutation; `blobKey` is present only for a present
record. -/
structure Record where
  nameSpace : Bytes
  logicalKey : Bytes
  state : LifecycleState
  blobKey : Bytes
  version : Version
  authorityID : Bytes
  deriving DecidableEq, Repr

/-- The key under which the logical view keeps a record. -/
structure LogicalKey where
  nameSpace : Bytes
  logicalKey : Bytes
  deriving DecidableEq, Repr

/-- Namespace order, then key order, bytewise. -/
def LogicalKey.cmp : LogicalKey → LogicalKey → Ordering :=
  compareLex (compareOn LogicalKey.nameSpace) (compareOn LogicalKey.logicalKey)

instance : Std.TransCmp LogicalKey.cmp :=
  inferInstanceAs (Std.TransCmp (compareLex _ _))

instance : Std.LawfulEqCmp LogicalKey.cmp where
  compare_self := by
    intro k
    simp [LogicalKey.cmp, compareLex, compareOn]
  eq_of_compare := by
    intro a b h
    simp only [LogicalKey.cmp, compareLex, compareOn, Ordering.then_eq_eq,
      Std.LawfulEqOrd.compare_eq_iff_eq] at h
    cases a
    cases b
    simp_all

namespace Record

def key (r : Record) : LogicalKey := ⟨r.nameSpace, r.logicalKey⟩

/-- Field-wise equality. -/
def equal (r other : Record) : Bool :=
  r.nameSpace == other.nameSpace && r.logicalKey == other.logicalKey &&
    r.state == other.state && r.blobKey == other.blobKey &&
    r.version == other.version && r.authorityID == other.authorityID

/-- Equality of everything but key and version. -/
def bodyEqual (r other : Record) : Bool :=
  r.state == other.state && r.blobKey == other.blobKey &&
    r.authorityID == other.authorityID

@[simp] theorem equal_iff {r other : Record} : r.equal other = true ↔ r = other := by
  cases r
  cases other
  simp [equal, and_assoc]

theorem bodyEqual_self (r : Record) : r.bodyEqual r = true := by
  simp [bodyEqual]

end Record

/-- Pairwise equality of two record lists of the same length. -/
def recordsEqual : List Record → List Record → Bool
  | [], [] => true
  | a :: left, b :: right => a.equal b && recordsEqual left right
  | _, _ => false

@[simp] theorem recordsEqual_iff {left right : List Record} :
    recordsEqual left right = true ↔ left = right := by
  induction left generalizing right with
  | nil => cases right <;> simp [recordsEqual]
  | cons a left ih => cases right <;> simp [recordsEqual, ih]

/-- A complete logical state at a journal watermark. -/
structure Checkpoint where
  watermark : Version
  records : List Record
  deriving DecidableEq, Repr

/-! ## Repair messages -/

def repairBatchMessageType : Bytes := ascii "lifecycle.repair.batch"
def repairSnapshotMessageType : Bytes := ascii "lifecycle.repair.snapshot"
def repairAckMessageType : Bytes := ascii "lifecycle.repair.ack"

/-- An ordered journal slice after `from_` and through `to_`. -/
structure RepairBatch where
  type : Bytes
  from_ : Version
  to_ : Version
  more : Bool
  records : List Record
  deriving DecidableEq, Repr

/-- A complete logical checkpoint at `watermark`. -/
structure RepairSnapshot where
  type : Bytes
  watermark : Version
  records : List Record
  deriving DecidableEq, Repr

/-- The receiver durably applied through `watermark`. -/
structure RepairAck where
  type : Bytes
  watermark : Version
  deriving DecidableEq, Repr

/-- The durable allocator state of an authority. -/
structure AuthorityState where
  authorityID : Bytes
  version : Version
  deriving DecidableEq, Repr

/-- Acknowledged watermarks by peer. -/
abbrev WatermarkMap := Std.ExtTreeMap Bytes Version compare

end StreamHive.Lifecycle
