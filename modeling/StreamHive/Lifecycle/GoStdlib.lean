import StreamHive.Lifecycle.JournalSpec
import StreamHive.Verified.JsonText

/-!
# A standard library to run the model with

`goStdlib` is a concrete instance of the standard-library parameter: CRC-32C,
SHA-256 and the JSON text that `encoding/json` writes for the lifecycle types,
member by member.  Its decoders read exactly that text, and printable means
printable ASCII: `unicode.IsPrint` admits more characters, of which the samples use
none.  It is lawful (`goStdlib_lawful`), so every theorem that
assumes a lawful library can be instantiated with it.  `Sample` holds the journal
on which the runs of the later modules start.
-/

namespace StreamHive.Lifecycle

open Verified ByteString FileSystem JsonText Log

/-! ## Checksums -/

/-- One bit of the reflected Castagnoli polynomial. -/
def crcBit (crc : UInt32) : UInt32 :=
  if crc &&& 1 = 1 then (crc >>> 1) ^^^ 0x82F63B78 else crc >>> 1

def crcByte (crc : UInt32) (b : UInt8) : UInt32 :=
  (List.range 8).foldl (fun c _ => crcBit c) (crc ^^^ b.toUInt32)

def crc32c (data : Bytes) : UInt32 := ~~~ (data.foldl crcByte 0xFFFFFFFF)

/-! ## SHA-256 -/

def shaConstants : List UInt32 :=
  [0x428a2f98, 0x71374491, 0xb5c0fbcf, 0xe9b5dba5, 0x3956c25b, 0x59f111f1, 0x923f82a4,
    0xab1c5ed5, 0xd807aa98, 0x12835b01, 0x243185be, 0x550c7dc3, 0x72be5d74, 0x80deb1fe,
    0x9bdc06a7, 0xc19bf174, 0xe49b69c1, 0xefbe4786, 0x0fc19dc6, 0x240ca1cc, 0x2de92c6f,
    0x4a7484aa, 0x5cb0a9dc, 0x76f988da, 0x983e5152, 0xa831c66d, 0xb00327c8, 0xbf597fc7,
    0xc6e00bf3, 0xd5a79147, 0x06ca6351, 0x14292967, 0x27b70a85, 0x2e1b2138, 0x4d2c6dfc,
    0x53380d13, 0x650a7354, 0x766a0abb, 0x81c2c92e, 0x92722c85, 0xa2bfe8a1, 0xa81a664b,
    0xc24b8b70, 0xc76c51a3, 0xd192e819, 0xd6990624, 0xf40e3585, 0x106aa070, 0x19a4c116,
    0x1e376c08, 0x2748774c, 0x34b0bcb5, 0x391c0cb3, 0x4ed8aa4a, 0x5b9cca4f, 0x682e6ff3,
    0x748f82ee, 0x78a5636f, 0x84c87814, 0x8cc70208, 0x90befffa, 0xa4506ceb, 0xbef9a3f7,
    0xc67178f2]

/-- The working variables of the compression function. -/
structure ShaState where
  a : UInt32
  b : UInt32
  c : UInt32
  d : UInt32
  e : UInt32
  f : UInt32
  g : UInt32
  h : UInt32

def rotr (x : UInt32) (n : UInt32) : UInt32 := (x >>> n) ||| (x <<< (32 - n))

def shaInit : ShaState :=
  ⟨0x6a09e667, 0xbb67ae85, 0x3c6ef372, 0xa54ff53a, 0x510e527f, 0x9b05688c, 0x1f83d9ab,
    0x5be0cd19⟩

def shaRound (s : ShaState) (kw : UInt32 × UInt32) : ShaState :=
  let s1 := rotr s.e 6 ^^^ rotr s.e 11 ^^^ rotr s.e 25
  let ch := (s.e &&& s.f) ^^^ (~~~ s.e &&& s.g)
  let t1 := s.h + s1 + ch + kw.1 + kw.2
  let s0 := rotr s.a 2 ^^^ rotr s.a 13 ^^^ rotr s.a 22
  let maj := (s.a &&& s.b) ^^^ (s.a &&& s.c) ^^^ (s.b &&& s.c)
  ⟨t1 + (s0 + maj), s.a, s.b, s.c, s.d + t1, s.e, s.f, s.g⟩

/-- The message schedule, newest word first. -/
def shaExtend (w : List UInt32) : List UInt32 :=
  let w15 := w.getD 14 0
  let w2 := w.getD 1 0
  let s0 := rotr w15 7 ^^^ rotr w15 18 ^^^ (w15 >>> 3)
  let s1 := rotr w2 17 ^^^ rotr w2 19 ^^^ (w2 >>> 10)
  (w.getD 15 0 + s0 + w.getD 6 0 + s1) :: w

def shaWords (block : Bytes) : List UInt32 :=
  (List.range 16).map fun i => UInt32.ofNat (beDecode ((block.drop (4 * i)).take 4))

def shaBlock (s : ShaState) (block : Bytes) : ShaState :=
  let w := ((List.range 48).foldl (fun w _ => shaExtend w) (shaWords block).reverse).reverse
  let t := (shaConstants.zip w).foldl shaRound s
  ⟨s.a + t.a, s.b + t.b, s.c + t.c, s.d + t.d, s.e + t.e, s.f + t.f, s.g + t.g, s.h + t.h⟩

def shaPad (data : Bytes) : Bytes :=
  data ++ 0x80 :: List.replicate ((119 - data.length % 64) % 64) 0 ++
    beEncode 8 (8 * data.length)

def sha256Sum (data : Bytes) : Bytes :=
  let padded := shaPad data
  let s := (List.range (padded.length / 64)).foldl
    (fun s i => shaBlock s ((padded.drop (64 * i)).take 64)) shaInit
  beEncode 4 s.a.toNat ++ beEncode 4 s.b.toNat ++ beEncode 4 s.c.toNat ++
    beEncode 4 s.d.toNat ++ beEncode 4 s.e.toNat ++ beEncode 4 s.f.toNat ++
    beEncode 4 s.g.toNat ++ beEncode 4 s.h.toNat

theorem length_sha256Sum (data : Bytes) : (sha256Sum data).length = sha256Size := by
  simp [sha256Sum, sha256Size]

/-! ## JSON text of the lifecycle types -/

def printableASCII (s : Bytes) : Bool := s.all fun b => 32 ≤ b.toNat && b.toNat ≤ 126

def writeVersion (v : Version) : Bytes :=
  ascii "\x7b\"epoch\":" ++ (writeUInt64 v.epoch ++ (ascii ",\"sequence\":" ++
    (writeUInt64 v.sequence ++ ascii "\x7d")))

def readVersion : Reader Version := fun input => do
  let input ← expect (ascii "\x7b\"epoch\":") input
  let (epoch, input) ← readUInt64 input
  let input ← expect (ascii ",\"sequence\":") input
  let (sequence, input) ← readUInt64 input
  let input ← expect (ascii "\x7d") input
  some (⟨epoch, sequence⟩, input)

private theorem endsNumber_ascii {text : String} {rest : Bytes} {b : UInt8}
    (h : (ascii text).head? = some b) (hb : isDigit b = false) :
    EndsNumber (ascii text ++ rest) := by
  intro c hc
  rw [List.head?_append, h] at hc
  simp only [Option.some_or, Option.mem_some_iff] at hc
  rw [← hc]
  exact hb

@[simp] theorem readVersion_write (v : Version) (rest : Bytes) :
    readVersion (writeVersion v ++ rest) = some (v, rest) := by
  have hsequence : EndsNumber (ascii ",\"sequence\":" ++ (writeUInt64 v.sequence ++
      (ascii "\x7d" ++ rest))) := endsNumber_ascii rfl (by decide)
  have hclose : EndsNumber (ascii "\x7d" ++ rest) := endsNumber_ascii rfl (by decide)
  simp [readVersion, writeVersion, readUInt64_write _ hsequence,
    readUInt64_write _ hclose]

def stateText : LifecycleState → Bytes
  | .present => ascii "present"
  | .deleted => ascii "deleted"
  | .other text => text

def textState (text : Bytes) : LifecycleState :=
  if text = ascii "present" then .present
  else if text = ascii "deleted" then .deleted
  else .other text

theorem textState_stateText {state : LifecycleState}
    (h : state = .present ∨ state = .deleted) : textState (stateText state) = state := by
  rcases h with rfl | rfl <;> decide

/-- `blob_key` is omitted when it is empty. -/
def writeBlobKey (key : Bytes) : Bytes :=
  if key = [] then [] else ascii ",\"blob_key\":" ++ writeBytes key

def readBlobKey : Reader Bytes := fun input =>
  match expect (ascii ",\"blob_key\":") input with
  | some input => readBytes input
  | none => some ([], input)

theorem readBlobKey_write (key rest : Bytes) :
    readBlobKey (writeBlobKey key ++ (ascii ",\"version\":" ++ rest)) =
      some (key, ascii ",\"version\":" ++ rest) := by
  unfold writeBlobKey
  split
  · next h =>
      subst h
      have hother : expect (ascii ",\"blob_key\":") (ascii ",\"version\":" ++ rest) =
          none := rfl
      simp [readBlobKey, hother]
  · simp [readBlobKey]

def writeRecord (r : Record) : Bytes :=
  ascii "\x7b\"namespace\":" ++ (writeBytes r.nameSpace ++ (ascii ",\"logical_key\":" ++
    (writeBytes r.logicalKey ++ (ascii ",\"state\":" ++ (writeString (stateText r.state) ++
      (writeBlobKey r.blobKey ++ (ascii ",\"version\":" ++ (writeVersion r.version ++
        (ascii ",\"authority_id\":" ++ (writeString r.authorityID ++
          ascii "\x7d"))))))))))

def readRecord : Reader Record := fun input => do
  let input ← expect (ascii "\x7b\"namespace\":") input
  let (nameSpace, input) ← readBytes input
  let input ← expect (ascii ",\"logical_key\":") input
  let (logicalKey, input) ← readBytes input
  let input ← expect (ascii ",\"state\":") input
  let (state, input) ← readString input
  let (blobKey, input) ← readBlobKey input
  let input ← expect (ascii ",\"version\":") input
  let (version, input) ← readVersion input
  let input ← expect (ascii ",\"authority_id\":") input
  let (authorityID, input) ← readString input
  let input ← expect (ascii "\x7d") input
  some (⟨nameSpace, logicalKey, textState state, blobKey, version, authorityID⟩, input)

/-- The state of the record is one of the two legal ones. -/
def Record.LegalState (r : Record) : Prop := r.state = .present ∨ r.state = .deleted

theorem readRecord_write {r : Record} (h : r.LegalState) (rest : Bytes) :
    readRecord (writeRecord r ++ rest) = some (r, rest) := by
  simp [readRecord, writeRecord, readBlobKey_write, textState_stateText h]

theorem readsRecord : Reads readRecord writeRecord Record.LegalState where
  read_write := fun _ rest hr _ => readRecord_write hr rest
  starts := fun _ => ⟨123, _, rfl, by decide, by decide⟩

def writeRecords (rs : List Record) : Bytes := writeList bracket writeRecord rs

theorem readRecords_write {rs : List Record} (h : ∀ r ∈ rs, r.LegalState)
    (rest : Bytes) : readList bracket readRecord (writeRecords rs ++ rest) = some (rs, rest) :=
  readList_write readsRecord (.inl rfl) h rest

def writeCheckpoint (c : Checkpoint) : Bytes :=
  ascii "\x7b\"watermark\":" ++ (writeVersion c.watermark ++ (ascii ",\"records\":" ++
    (writeRecords c.records ++ ascii "\x7d")))

def readCheckpoint : Reader Checkpoint := fun input => do
  let input ← expect (ascii "\x7b\"watermark\":") input
  let (watermark, input) ← readVersion input
  let input ← expect (ascii ",\"records\":") input
  let (records, input) ← readList bracket readRecord input
  let input ← expect (ascii "\x7d") input
  some (⟨watermark, records⟩, input)

def writeBatch (b : RepairBatch) : Bytes :=
  ascii "\x7b\"type\":" ++ (writeString b.type ++ (ascii ",\"from\":" ++
    (writeVersion b.from_ ++ (ascii ",\"to\":" ++ (writeVersion b.to_ ++
      (ascii ",\"more\":" ++ (writeBool b.more ++ (ascii ",\"records\":" ++
        (writeRecords b.records ++ ascii "\x7d")))))))))

def readBatch : Reader RepairBatch := fun input => do
  let input ← expect (ascii "\x7b\"type\":") input
  let (type, input) ← readString input
  let input ← expect (ascii ",\"from\":") input
  let (from_, input) ← readVersion input
  let input ← expect (ascii ",\"to\":") input
  let (to_, input) ← readVersion input
  let input ← expect (ascii ",\"more\":") input
  let (more, input) ← readBool input
  let input ← expect (ascii ",\"records\":") input
  let (records, input) ← readList bracket readRecord input
  let input ← expect (ascii "\x7d") input
  some (⟨type, from_, to_, more, records⟩, input)

def writeSnapshot (s : RepairSnapshot) : Bytes :=
  ascii "\x7b\"type\":" ++ (writeString s.type ++ (ascii ",\"watermark\":" ++
    (writeVersion s.watermark ++ (ascii ",\"records\":" ++
      (writeRecords s.records ++ ascii "\x7d")))))

def readSnapshot : Reader RepairSnapshot := fun input => do
  let input ← expect (ascii "\x7b\"type\":") input
  let (type, input) ← readString input
  let input ← expect (ascii ",\"watermark\":") input
  let (watermark, input) ← readVersion input
  let input ← expect (ascii ",\"records\":") input
  let (records, input) ← readList bracket readRecord input
  let input ← expect (ascii "\x7d") input
  some (⟨type, watermark, records⟩, input)

def writeAck (a : RepairAck) : Bytes :=
  ascii "\x7b\"type\":" ++ (writeString a.type ++ (ascii ",\"watermark\":" ++
    (writeVersion a.watermark ++ ascii "\x7d")))

def readAck : Reader RepairAck := fun input => do
  let input ← expect (ascii "\x7b\"type\":") input
  let (type, input) ← readString input
  let input ← expect (ascii ",\"watermark\":") input
  let (watermark, input) ← readVersion input
  let input ← expect (ascii "\x7d") input
  some (⟨type, watermark⟩, input)

/-- The `type` member, which the program writes first. -/
def readMessageType : Reader Bytes := fun input => do
  let input ← expect (ascii "\x7b\"type\":") input
  readString input

def writeEntry (p : Bytes × Version) : Bytes :=
  writeString p.1 ++ (ascii ":" ++ writeVersion p.2)

def readEntryText : Reader (Bytes × Version) := fun input => do
  let (peer, input) ← readString input
  let input ← expect (ascii ":") input
  let (version, input) ← readVersion input
  some ((peer, version), input)

theorem readsEntry : Reads readEntryText writeEntry fun _ => True where
  read_write := by
    intro p rest _ _
    simp [readEntryText, writeEntry]
  starts := fun p => ⟨34, _, rfl, by decide, by decide⟩

/-- The members of the watermark object, in key order. -/
def writeWatermarks : Option WatermarkMap → Bytes
  | none => ascii "\x7b\"watermarks\":null\x7d"
  | some m => ascii "\x7b\"watermarks\":" ++ (writeList brace writeEntry m.toList ++ ascii "\x7d")

def readWatermarks : Reader (Option WatermarkMap) := fun input => do
  let input ← expect (ascii "\x7b\"watermarks\":") input
  let (entries, input) ← readList brace readEntryText input
  let input ← expect (ascii "\x7d") input
  some (some (Std.ExtTreeMap.ofList entries compare), input)

def writeMembers (ms : List Bytes) : Bytes :=
  ascii "\x7b\"members\":" ++ (writeList bracket writeString ms ++ ascii "\x7d")

def readMembers : Reader (List Bytes) := fun input => do
  let input ← expect (ascii "\x7b\"members\":") input
  let (ms, input) ← readList bracket readString input
  let input ← expect (ascii "\x7d") input
  some (ms, input)

def writeAuthority (a : AuthorityState) : Bytes :=
  ascii "\x7b\"authority_id\":" ++ (writeString a.authorityID ++ (ascii ",\"version\":" ++
    (writeVersion a.version ++ ascii "\x7d")))

def readAuthority : Reader AuthorityState := fun input => do
  let input ← expect (ascii "\x7b\"authority_id\":") input
  let (authorityID, input) ← readString input
  let input ← expect (ascii ",\"version\":") input
  let (version, input) ← readVersion input
  let input ← expect (ascii "\x7d") input
  some (⟨authorityID, version⟩, input)

/-- One value and then the end of the input. -/
def decodeAll {α : Type} (read : Reader α) (input : Bytes) : Decoded α :=
  match read input with
  | some (a, []) => .one a
  | some (_, _ :: _) => .garbage
  | none => .malformed

theorem decodeAll_write {α : Type} {read : Reader α} {input : Bytes} {a : α}
    (h : read (input ++ []) = some (a, [])) : decodeAll read input = .one a := by
  rw [List.append_nil] at h
  unfold decodeAll
  rw [h]

/-- The standard library that runs the model. -/
def goStdlib : Stdlib where
  checksum := crc32c
  sha256 := sha256Sum
  isPrintable := printableASCII
  record := ⟨writeRecord, decodeAll readRecord⟩
  checkpoint := ⟨writeCheckpoint, decodeAll readCheckpoint⟩
  batch := ⟨writeBatch, decodeAll readBatch⟩
  snapshot := ⟨writeSnapshot, decodeAll readSnapshot⟩
  ack := ⟨writeAck, decodeAll readAck⟩
  messageType := fun input =>
    match readMessageType input with
    | some (type, _) => .one type
    | none => .malformed
  watermarks := ⟨writeWatermarks, decodeAll readWatermarks⟩
  members := ⟨writeMembers, decodeAll readMembers⟩
  authority := ⟨writeAuthority, decodeAll readAuthority⟩

theorem ofList_toList (m : WatermarkMap) :
    Std.ExtTreeMap.ofList m.toList compare = m := by
  apply Std.ExtTreeMap.ext_getElem?
  intro k
  have hdistinct := Std.ExtTreeMap.distinct_keys_toList (t := m)
  cases hk : m[k]? with
  | some v =>
    exact Std.ExtTreeMap.getElem?_ofList_of_mem Std.ReflCmp.compare_self hdistinct
      (Std.ExtTreeMap.mem_toList_iff_getElem?_eq_some.mpr hk)
  | none =>
    apply Std.ExtTreeMap.getElem?_ofList_of_contains_eq_false
    rw [← Bool.not_eq_true, List.contains_iff_mem]
    intro hmem
    obtain ⟨p, hp, rfl⟩ := List.mem_map.mp hmem
    rw [Std.ExtTreeMap.mem_toList_iff_getElem?_eq_some.mp hp] at hk
    cases hk

/-- The concrete library satisfies what the proofs assume. -/
theorem goStdlib_lawful : goStdlib.Lawful where
  sha256_length := length_sha256Sum
  record :=
    { decode_marshal := fun r hr => decodeAll_write (readRecord_write hr.state [])
      marshal_ne_nil := fun _ => List.cons_ne_nil _ _ }
  checkpoint :=
    { decode_marshal := by
        intro c hc
        refine decodeAll_write ?_
        simp [goStdlib, readCheckpoint, writeCheckpoint,
          readRecords_write fun r hr => (hc r hr).state]
      marshal_ne_nil := fun _ => List.cons_ne_nil _ _ }
  batch :=
    { decode_marshal := by
        rintro b ⟨_, hb⟩
        refine decodeAll_write ?_
        simp [goStdlib, readBatch, writeBatch,
          readRecords_write fun r hr => (hb r hr).state]
      marshal_ne_nil := fun _ => List.cons_ne_nil _ _ }
  snapshot :=
    { decode_marshal := by
        rintro s ⟨_, hs⟩
        refine decodeAll_write ?_
        simp [goStdlib, readSnapshot, writeSnapshot,
          readRecords_write fun r hr => (hs r hr).state]
      marshal_ne_nil := fun _ => List.cons_ne_nil _ _ }
  ack :=
    { decode_marshal := by
        intro a _
        refine decodeAll_write ?_
        simp [goStdlib, readAck, writeAck]
      marshal_ne_nil := fun _ => List.cons_ne_nil _ _ }
  batchType := by
    intro b _ _
    simp [goStdlib, readMessageType, writeBatch]
  snapshotType := by
    intro s _ _
    simp [goStdlib, readMessageType, writeSnapshot]
  ackType := by
    intro a _
    simp [goStdlib, readMessageType, writeAck]
  watermarks :=
    { decode_marshal := by
        rintro _ ⟨m, rfl, _⟩
        refine decodeAll_write ?_
        simp [goStdlib, readWatermarks, writeWatermarks,
          readList_write readsEntry (.inr rfl) fun _ _ => trivial, ofList_toList]
      marshal_ne_nil := by
        intro m
        cases m <;> exact List.cons_ne_nil _ _ }
  members :=
    { decode_marshal := by
        intro ms _
        refine decodeAll_write ?_
        simp [goStdlib, readMembers, writeMembers,
          readList_write readsString (.inl rfl) fun _ _ => trivial]
      marshal_ne_nil := fun _ => List.cons_ne_nil _ _ }
  authority :=
    { decode_marshal := by
        intro a _
        refine decodeAll_write ?_
        simp [goStdlib, readAuthority, writeAuthority]
      marshal_ne_nil := fun _ => List.cons_ne_nil _ _ }

/-! ## A journal to run -/

namespace Sample

/-- The default options. -/
def options : JournalOptions := ⟨Limits.unset, 0, 0, by decide⟩

/-- The default options, normalized. -/
def normalOptions : JournalOptions :=
  ⟨Limits.unset.normalized, defaultMaxJournalBytes, defaultMaxJournalEntries,
    defaultMaxJournalBytes_le⟩

def first : Record := ⟨ascii "ns", ascii "a", .deleted, [], ⟨1, 1⟩, ascii "node"⟩
def second : Record := ⟨ascii "ns", ascii "b", .deleted, [], ⟨1, 2⟩, ascii "node"⟩

theorem zero_lt_first : (Segment.reset Record.version Version.zero).last < first.version := by
  decide

/-- A journal just created under the default options. -/
def opened : OnDisk Journal where
  fs := freshJournalFS goStdlib FS.empty "journal"
  obj := journalOn "journal" normalOptions 0 journalHeaderBytes
    (Segment.reset Record.version Version.zero)

theorem openJournal_opened :
    openJournal goStdlib Oracle.none "journal" options FS.empty =
      .ok (opened.obj, ⟨false, Version.zero, Version.zero, 0⟩) opened.fs :=
  openJournal_fresh (fun _ => rfl) (by decide) (by rfl) rfl

/-- A log of two records. -/
def twoEntries : JournalLog :=
  ((Segment.reset Record.version Version.zero).append first zero_lt_first).append second
    (by decide)

end Sample

end StreamHive.Lifecycle
