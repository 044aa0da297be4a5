import StreamHive.Lifecycle.Disk
import StreamHive.Lifecycle.Envelope

/-!
# The journal

`OpenJournal`, `Append`, `Compact`, `InstallSnapshot` and the checkpoint file,
as the program performs them: checks in the order of the source, every call on
the operating system or the context decided by an oracle, and the in-memory
fields assigned only where the source assigns them.

The retained tail is a `Segment`, so the fields `floor`, `last` and `records`
of the source are `log.floor`, `log.last` and `log.records`; that the records
ascend above the floor is part of the type, and the version checks of the
source are where its proof obligations are discharged.
-/

namespace StreamHive.Lifecycle

open Verified ByteString Effect FileSystem Log

/-! ## Options and state -/

/-- `math.MaxInt64` -/
def maxInt64 : Int := 2 ^ 63 - 1

/-- Bounds on the durable journal; the byte bound is an `int64`. -/
structure JournalOptions where
  limits : Limits
  maxJournalBytes : Int
  maxJournalEntries : Int
  int64 : maxJournalBytes ≤ maxInt64
  deriving DecidableEq

theorem defaultMaxJournalBytes_le : defaultMaxJournalBytes ≤ maxInt64 := by decide

theorem orDefault_le_maxInt64 {limit : Int} (h : limit ≤ maxInt64) :
    orDefault limit defaultMaxJournalBytes ≤ maxInt64 := by
  unfold orDefault
  split
  · exact defaultMaxJournalBytes_le
  · exact h

def JournalOptions.normalized (o : JournalOptions) : Except Error JournalOptions :=
  let limits := o.limits.normalized
  let maxJournalBytes := orDefault o.maxJournalBytes defaultMaxJournalBytes
  let maxJournalEntries := orDefault o.maxJournalEntries defaultMaxJournalEntries
  if maxJournalBytes < journalHeaderBytes then
    .error .journalLimit
  else if limits.maxRecordBytes > maxUint32 then
    .error .journalLimit
  else
    .ok ⟨limits, maxJournalBytes, maxJournalEntries, orDefault_le_maxInt64 o.int64⟩

/-- An open file: its inode, and whether it has been closed. -/
structure File where
  ino : Nat
  closed : Bool
  deriving DecidableEq, Repr

/-- An ordered, append-only mutation log. -/
structure Journal where
  path : String
  file : Option File
  limits : Limits
  maxBytes : Int
  maxEntries : Int
  size : Nat
  log : JournalLog
  closed : Bool

/-- The repair performed while opening a journal. -/
structure Recovery where
  truncatedTail : Bool
  floor : Version
  lastVersion : Version
  entries : Nat
  deriving DecidableEq, Repr

namespace Journal

abbrev floor (j : Journal) : Version := j.log.floor
abbrev lastVersion (j : Journal) : Version := j.log.last
abbrev records (j : Journal) : List Record := j.log.records

/-- The open file, unless the journal is closed. -/
def ensureOpen (j : Journal) : Except Error File :=
  match j.file with
  | some file => if j.closed then .error .journalClosed else .ok file
  | none => .error .journalClosed

end Journal

/-! ## Opening -/

/-- Addition of `int64` values. -/
def addInt64 (a b : Int) : Int := Int.bmod (a + b) (2 ^ 64)

/-- `io.ReadAll(io.LimitReader(file, max + 1))`; a limit that is not positive
reads nothing. -/
def readLimited (content : Bytes) (max : Int) : Bytes :=
  content.take (addInt64 max 1).toNat

def readBounded (o : Oracle) (ino : Nat) (size : Nat) (max : Int) :
    EStateM Error FS Bytes := do
  raiseIf (size > max) .journalLimit
  syscall o .seekStart
  syscall o .read
  let fs ← get
  let data := readLimited (fs.content ino) max
  raiseIf (data.length > max) .journalLimit
  pure data

/-- `os.OpenFile` with `O_CREATE`. -/
def openOrCreate (o : Oracle) (path : String) : EStateM Error FS Nat := do
  syscall o .openFile
  let fs ← get
  match fs.dir (.file path) with
  | some ino => pure ino
  | none => do
    set (fs.create (.file path))
    pure fs.fresh

/-- A journal over an open file. -/
def journalOn (path : String) (options : JournalOptions) (ino size : Nat)
    (log : JournalLog) : Journal where
  path := path
  file := some ⟨ino, false⟩
  limits := options.limits
  maxBytes := options.maxJournalBytes
  maxEntries := options.maxJournalEntries
  size := size
  log := log
  closed := false

variable (S : Stdlib) (o : Oracle)

/-- Write the header of a new journal. -/
def initJournal (path : String) (options : JournalOptions) (ino : Nat) :
    EStateM Error FS (Journal × Recovery) := do
  writeFull o 0 ino (encodeJournalHeader S Version.zero)
  syscall o .sync
  syscall o .seek
  pure (journalOn path options ino journalHeaderBytes
    (Segment.reset Record.version Version.zero),
    ⟨false, Version.zero, Version.zero, 0⟩)

/-- Cut off a torn tail. -/
def repairTail (ino : Nat) (parsed : Parsed) : EStateM Error FS Unit :=
  if parsed.truncated then do
    syscall o .truncate
    modify fun fs => fs.store ino ((fs.content ino).take parsed.validSize)
    syscall o .sync
  else
    pure ()

/-- Recover the records of an existing journal, cutting off a torn tail. -/
def recoverJournal (path : String) (options : JournalOptions) (ino size : Nat) :
    EStateM Error FS (Journal × Recovery) := do
  let data ← readBounded o ino size options.maxJournalBytes
  let parsed ← attempt (parseJournal S data options.limits)
  repairTail o ino parsed
  syscall o .seek
  raiseIf (parsed.log.records.length > options.maxJournalEntries) .journalLimit
  pure (journalOn path options ino parsed.validSize parsed.log,
    ⟨parsed.truncated, parsed.log.floor, parsed.log.last, parsed.log.records.length⟩)

/-- Open or create a checksummed journal. -/
def openJournal (path : String) (options : JournalOptions) :
    EStateM Error FS (Journal × Recovery) := do
  raiseIf (path = "") .journalCorrupt
  let normalized ← attempt options.normalized
  let ino ← openOrCreate o path
  syscall o .stat
  let fs ← get
  let size := (fs.content ino).length
  raiseIf (size > normalized.maxJournalBytes) .journalLimit
  if size = 0 then
    initJournal S o path normalized ino
  else
    recoverJournal S o path normalized ino size

/-! ## Appending -/

/-- A seek on an open file. -/
def seekEnd {σ : Type} (o : Oracle) (file : File) : EStateM Error σ Unit := do
  raiseIf (file.closed = true) .fileClosed
  syscall o .seek

/-- The journal after a durable append. -/
def Journal.appended (j : Journal) (record : Record) (entryBytes : Nat)
    (h : j.log.last < record.version) : Journal :=
  { j with log := j.log.append record h, size := j.size + entryBytes }

/-- Persist one strictly newer mutation and sync it before returning. -/
def Journal.append (record : Record) : EStateM Error (OnDisk Journal) Unit := do
  ctxErr o 0
  let j := (← get).obj
  attempt (record.validate S j.limits)
  let entry ← attempt (encodeEnvelope S (S.record.marshal record))
  let file ← attempt j.ensureOpen
  if h : record.version.compare j.log.last ≤ 0 then
    throw .journalVersionOrder
  else do
    raiseIf (j.log.records.length ≥ j.maxEntries ∨
      j.size + entry.length > j.maxBytes) .journalLimit
    ctxErr o 1
    seekEnd o file
    onFS (writeFull o 0 file.ino entry)
    syscall o .sync
    modify fun s =>
      { s with obj := j.appended record entry.length (lt_of_not_compare_le h) }

/-- The loop of `Journal.Records`, with its context checks. -/
def copyRecords : Nat → List Record → Except Error (List Record)
  | _, [] => .ok []
  | i, record :: rest => do
    ctxCheck o i
    let copied ← copyRecords (i + 1) rest
    .ok (record :: copied)

/-- The retained records of the journal, `Journal.Records` of the program. -/
def Journal.listRecords (j : Journal) : Except Error (List Record) := do
  ctxCheck o 0
  let _ ← j.ensureOpen
  copyRecords o 1 j.records

/-- Release the file.  Repeated closes are harmless. -/
def Journal.close : EStateM Error (OnDisk Journal) Unit := do
  let s ← get
  if s.obj.closed then
    pure ()
  else
    match s.obj.file with
    | none => set { s with obj := { s.obj with closed := true } }
    | some file => do
      set { s with obj := { s.obj with closed := true, file := Option.none } }
      raiseIf (file.closed = true) .fileClosed
      syscall o .close

/-! ## Checkpoints -/

def normalizeCheckpoint (checkpoint : Checkpoint) (limits : Limits) :
    Except Error Checkpoint := do
  let records ← normalizeCheckpointRecords S checkpoint.records checkpoint.watermark
    limits.normalized
  .ok ⟨checkpoint.watermark, records⟩

def encodeCheckpoint (checkpoint : Checkpoint) (limits : Limits) : Except Error Bytes := do
  let normalized ← normalizeCheckpoint S checkpoint limits.normalized
  let bytes ← encodeEnvelope S (S.checkpoint.marshal normalized)
  if bytes.length > limits.normalized.maxCheckpointBytes then
    .error .checkpointTooLarge
  else
    .ok bytes

/-- Write a validated checkpoint through a temporary file and a rename. -/
def saveCheckpoint (path : String) (checkpoint : Checkpoint) (limits : Limits) :
    EStateM Error FS Unit := do
  raiseIf (path = "") .nilCheckpointPath
  let encoded ← attempt (encodeCheckpoint S checkpoint limits)
  raiseIf (encoded.length > limits.normalized.maxCheckpointBytes) .checkpointTooLarge
  atomicWrite o path encoded

/-- The checkpoint held by the bytes of a file. -/
def decodeCheckpoint (data : Bytes) (limits : Limits) : Except Error Checkpoint := do
  let (payload, next) ← decodeEnvelope S data 0 limits.maxCheckpointBytes
    .checkpointCorrupt .checkpointChecksum
  if next ≠ data.length then
    .error .checkpointCorrupt
  else
    match S.checkpoint.decode payload with
    | .one checkpoint => normalizeCheckpoint S checkpoint limits
    | _ => .error (.detailed .checkpointCorrupt "" .json)

/-- Read and validate one checkpoint envelope. -/
def loadCheckpoint (path : String) (limits : Limits) :
    EStateM Error FS Checkpoint := do
  raiseIf (path = "") .nilCheckpointPath
  ctxErr o 0
  syscall o .openFile
  let fs ← get
  match fs.read (.file path) with
  | Option.none => throw .notExist
  | some data => do
    syscall o .stat
    raiseIf (data.length > limits.normalized.maxCheckpointBytes) .checkpointTooLarge
    syscall o .read
    attempt (decodeCheckpoint S data limits.normalized)

/-! ## Rewriting the journal file -/

/-- The loop that copies the retained records into the temporary file. -/
def rewriteEntries (maxBytes : Int) (n : Nat) :
    Nat → Nat → List Record → EStateM Error FS Nat
  | _, size, [] => pure size
  | i, size, record :: rest => do
    ctxErr o i
    let entry ← attempt (encodeEnvelope S (S.record.marshal record))
    raiseIf (size + entry.length > maxBytes) .journalLimit
    writeFull o (i + 1) n entry
    rewriteEntries maxBytes n (i + 1) (size + entry.length) rest

/-- Fill the temporary file and rename it over the journal. -/
def installJournal (n : Nat) (path : String) (maxBytes : Int) (floor : Version)
    (records : List Record) : EStateM Error FS Nat :=
  onError (removeTemp n) do
    writeFull o 0 n (encodeJournalHeader S floor)
    let size ← rewriteEntries S o maxBytes n 0 journalHeaderBytes records
    syscall o .sync
    syscall o .close
    ctxErr o records.length
    syscall o .rename
    modify fun fs => fs.rename (.temp n) (.file path)
    pure size

/-- Replace the journal file and open the replacement. -/
def rewriteLocked (path : String) (maxBytes : Int) (floor : Version)
    (records : List Record) : EStateM Error FS (Nat × Nat) := do
  let n ← createTemp o
  let size ← installJournal S o n path maxBytes floor records
  syscall o .syncDirectory
  syscall o .reopen
  let fs ← get
  match fs.dir (.file path) with
  | Option.none => throw .notExist
  | some ino => do
    syscall o .reopenSeek
    pure (ino, size)

/-- Close the file that the journal still holds; Go marks it closed even when
the call reports an error. -/
def closeOldFile (file : File) : EStateM Error (OnDisk Journal) Unit := do
  raiseIf (file.closed = true) .fileClosed
  modify fun s => { s with obj := { s.obj with file := some { file with closed := true } } }
  syscall o .closeOld

/-! ## Compaction -/

/-- A checkpoint and the peer acknowledgements that make truncation safe. -/
structure CompactionRequest where
  checkpointPath : String
  watermark : Version
  records : List Record
  base : Option Checkpoint
  peerWatermarks : List Version

namespace Journal

/-- The checkpoint that the journal floor stands for. -/
def compactionBase (j : Journal) (base : Option Checkpoint) : Except Error Checkpoint :=
  if j.floor.IsZero then
    match base with
    | Option.none => .ok ⟨Version.zero, []⟩
    | some base => do
      let validated ← normalizeCheckpoint S base j.limits
      if ¬ validated.watermark.IsZero then
        .error .compactionBaseMismatch
      else
        .ok validated
  else
    match base with
    | Option.none => .error .compactionBaseMismatch
    | some base => do
      let validated ← normalizeCheckpoint S base j.limits
      if validated.watermark ≠ j.floor then
        .error .compactionBaseMismatch
      else
        .ok validated

/-- The records that the compaction scan visits before its break. -/
def compactionPrefix (j : Journal) (watermark : Version) : List Record :=
  j.log.records.takeWhile fun r => r.version ≤ watermark

/-- The state that the base and the scanned records replay to. -/
def compactionState (j : Journal) (base : Checkpoint) (watermark : Version) :
    Except Error Store := do
  let state ← ((Store.new j.limits).replay S base.records).mapError
    (.detailed .compactionUnsafe "base record")
  (state.replay S (j.compactionPrefix watermark)).mapError
    (.detailed .compactionUnsafe "journal record")

/-- Every check that compaction makes before it writes, with the checkpoint
bytes it then writes. -/
def compactionCheckpoint (j : Journal) (request : CompactionRequest) : Except Error Bytes :=
  if request.checkpointPath = j.path then
    .error .compactionUnsafe
  else if request.watermark.compare j.floor ≤ 0 then
    .error .compactionNoProgress
  else if request.watermark.compare j.lastVersion > 0 then
    .error .compactionWatermark
  else if request.peerWatermarks.any fun w => w.compare request.watermark < 0 then
    .error .peerBehindWatermark
  else do
    let base ← j.compactionBase S request.base
    let checkpoint ← normalizeCheckpoint S ⟨request.watermark, request.records⟩ j.limits
    let state ← j.compactionState S base request.watermark
    if (j.compactionPrefix request.watermark).length = 0 then
      .error .compactionNoProgress
    else if recordsEqual state.snapshot checkpoint.records = false then
      .error .compactionUnsafe
    else
      encodeCheckpoint S ⟨request.watermark, checkpoint.records⟩ j.limits

/-- Replace the journal file by one with this log and adopt it. -/
def adoptLog (file : File) (log : JournalLog) :
    EStateM Error (OnDisk Journal) Unit := do
  let j := (← get).obj
  let (ino, size) ← onFS (rewriteLocked S o j.path j.maxBytes log.floor log.records)
  closeOldFile o file
  modify fun s =>
    { s with obj := { j with file := some ⟨ino, false⟩, log := log, size := size } }

/-- Write the checkpoint before replacing the journal with its retained tail. -/
def compact (F : Faults) (request : CompactionRequest) :
    EStateM Error (OnDisk Journal) Unit := do
  raiseIf (request.checkpointPath = "") .nilCheckpointPath
  ctxErr (F .entry) 0
  let j := (← get).obj
  let file ← attempt j.ensureOpen
  let checkpointBytes ← attempt (j.compactionCheckpoint S request)
  onFS (atomicWrite (F .checkpoint) request.checkpointPath checkpointBytes)
  adoptLog S (F .rewrite) file (j.log.cut request.watermark)

/-- Every check that a snapshot installation makes before it writes. -/
def installCheckpoint (j : Journal) (checkpointPath : String) (checkpoint : Checkpoint) :
    Except Error Checkpoint :=
  if checkpointPath = j.path then
    .error .compactionUnsafe
  else do
    let normalized ← normalizeCheckpoint S checkpoint j.limits
    if normalized.watermark.compare j.lastVersion < 0 then
      .error .snapshotStale
    else
      .ok normalized

/-- Install a complete remote checkpoint and advance the journal floor. -/
def installSnapshot (F : Faults) (checkpointPath : String) (checkpoint : Checkpoint) :
    EStateM Error (OnDisk Journal) Unit := do
  raiseIf (checkpointPath = "") .nilCheckpointPath
  ctxErr (F .install) 0
  let j := (← get).obj
  let file ← attempt j.ensureOpen
  let normalized ← attempt (j.installCheckpoint S checkpointPath checkpoint)
  onFS (saveCheckpoint S (F .checkpoint) checkpointPath normalized j.limits)
  adoptLog S (F .rewrite) file (Segment.reset Record.version normalized.watermark)

end Journal

end StreamHive.Lifecycle
