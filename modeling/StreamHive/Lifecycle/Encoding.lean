import StreamHive.Lifecycle.Types

/-!
# The standard library as a parameter

The lifecycle code calls `encoding/json`, `hash/crc32`, `crypto/sha256`,
`unicode/utf8` and `unicode`.  Their bodies are not part of the program, so the
model takes them as the fields of `Stdlib`, and what the proofs rely on is
`Stdlib.Lawful`: values with legal texts survive a JSON round trip and a digest
has 32 bytes.  Nothing is assumed of the checksum.

A strict decode reads one JSON value and then expects the end of the input; its
four outcomes are kept apart because the program reports them differently.
`json.Marshal` cannot fail on the types marshalled here, so it is a total
function.
-/

namespace StreamHive.Lifecycle

open Verified ByteString

/-- The outcome of decoding one JSON value and then the end of the input. -/
inductive Decoded (α : Type) where
  /-- one value of the expected shape -/
  | one (value : α)
  /-- the first value is malformed -/
  | malformed
  /-- another JSON value follows -/
  | second
  /-- something that is not JSON follows -/
  | garbage
  deriving DecidableEq, Repr

/-- `json.Marshal` and a decoder for one type. -/
structure Json (α : Type) where
  marshal : α → Bytes
  decode : Bytes → Decoded α

/-- Values satisfying `P` survive encoding, and their text is not empty. -/
structure Json.RoundTrips {α : Type} (json : Json α) (P : α → Prop) : Prop where
  decode_marshal : ∀ x, P x → json.decode (json.marshal x) = .one x
  marshal_ne_nil : ∀ x, json.marshal x ≠ []

/-- The standard-library functions that the lifecycle code calls. -/
structure Stdlib where
  /-- `crc32.Checksum` with the Castagnoli table -/
  checksum : Bytes → UInt32
  /-- `sha256.Sum256` -/
  sha256 : Bytes → Bytes
  /-- `utf8.ValidString`, and `unicode.IsPrint` of every character -/
  isPrintable : Bytes → Bool
  record : Json Record
  checkpoint : Json Checkpoint
  batch : Json RepairBatch
  snapshot : Json RepairSnapshot
  ack : Json RepairAck
  /-- the `type` member of a repair message, read on its own -/
  messageType : Bytes → Decoded Bytes
  /-- the map is `none` when the member is absent or null -/
  watermarks : Json (Option WatermarkMap)
  members : Json (List Bytes)
  authority : Json AuthorityState

/-- `sha256.Size` -/
def sha256Size : Nat := 32

/-- The texts of a record are ones that JSON preserves. -/
structure Record.Clean (S : Stdlib) (r : Record) : Prop where
  authority : S.isPrintable r.authorityID = true
  state : r.state = .present ∨ r.state = .deleted

def Record.AllClean (S : Stdlib) (records : List Record) : Prop :=
  ∀ r ∈ records, r.Clean S

/-- What the proofs assume of the standard library. -/
structure Stdlib.Lawful (S : Stdlib) : Prop where
  sha256_length : ∀ data, (S.sha256 data).length = sha256Size
  record : S.record.RoundTrips (Record.Clean S)
  checkpoint : S.checkpoint.RoundTrips fun c => Record.AllClean S c.records
  batch : S.batch.RoundTrips fun b =>
    b.type = repairBatchMessageType ∧ Record.AllClean S b.records
  snapshot : S.snapshot.RoundTrips fun s =>
    s.type = repairSnapshotMessageType ∧ Record.AllClean S s.records
  ack : S.ack.RoundTrips fun a => a.type = repairAckMessageType
  batchType : ∀ b, b.type = repairBatchMessageType → Record.AllClean S b.records →
    S.messageType (S.batch.marshal b) = .one b.type
  snapshotType : ∀ s, s.type = repairSnapshotMessageType →
    Record.AllClean S s.records → S.messageType (S.snapshot.marshal s) = .one s.type
  ackType : ∀ a, a.type = repairAckMessageType →
    S.messageType (S.ack.marshal a) = .one a.type
  watermarks : S.watermarks.RoundTrips fun m =>
    ∃ w : WatermarkMap, m = some w ∧ ∀ peer ∈ w, S.isPrintable peer = true
  members : S.members.RoundTrips fun ms => ∀ m ∈ ms, S.isPrintable m = true
  authority : S.authority.RoundTrips fun a => S.isPrintable a.authorityID = true

end StreamHive.Lifecycle
