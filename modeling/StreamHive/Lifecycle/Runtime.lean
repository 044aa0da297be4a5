import StreamHive.Lifecycle.Authority
import StreamHive.Lifecycle.Membership
import StreamHive.Lifecycle.Session

/-!
# The lifecycle runtime

`lifecycleRuntime` of the command line: the node and its sessions, the authority
that allocates versions, the membership of the compaction and the checkpoint at the
journal floor, over one state directory.  `openLifecycleRuntime` rebuilds it from
the directory: the journal, the three side files, and the checkpoint, whose
watermark must be the journal floor.

The goroutine of a session only reads what the operations below change, and is the
subject of `RepairRun`; metrics and logging are left out.
-/

namespace StreamHive.Lifecycle

open Verified ByteString Effect FileSystem Log

/-! ## Configuration -/

/-- `lifecycleCLIConfig` -/
structure LifecycleConfig where
  enabled : Bool
  /-- a cleaned path -/
  dir : String
  membershipConfigured : Bool
  membershipMembers : List Bytes
  repairLimits : RepairLimits
  recordLimits : Limits
  journalLimits : JournalOptions

namespace LifecycleConfig

def validate (c : LifecycleConfig) (blobs : Option Blobs) (peerAuthToken : String)
    (peerID : Bytes) : Except Error Unit :=
  if c.enabled = false then
    if c.dir ≠ "" then
      .error (.text "lifecycle: -lifecycle-dir requires -lifecycle")
    else if c.membershipConfigured then
      .error (.text "lifecycle: -lifecycle-members requires -lifecycle")
    else
      .ok ()
  else if blobs.isNone then
    .error (.text "lifecycle: -lifecycle requires -replicate")
  else if c.dir = "" then
    .error (.text "lifecycle: -lifecycle-dir is required with -lifecycle")
  else if peerAuthToken = "" then
    .error (.text "lifecycle: -lifecycle requires -peer-auth-token")
  else if peerID = [] then
    .error (.text "lifecycle: -lifecycle requires -peer-id")
  else if c.repairLimits.maxRecords < 0 ∨ c.repairLimits.maxLogicalKeyBytes < 0 ∨
      c.repairLimits.maxMetadataBytes < 0 ∨ c.repairLimits.maxFrameBytes < 0 then
    .error (.text "lifecycle: repair limits must be zero or greater")
  else
    .ok ()

/-- `filepath.Join` of the cleaned state directory and the name of a file in it. -/
def statePath (c : LifecycleConfig) (name : String) : String :=
  if c.dir = "." then name
  else if c.dir = "/" then "/" ++ name
  else c.dir ++ "/" ++ name

def journalOptions (c : LifecycleConfig) : JournalOptions where
  limits := c.recordLimits
  maxJournalBytes := c.journalLimits.maxJournalBytes
  maxJournalEntries := c.journalLimits.maxJournalEntries
  int64 := c.journalLimits.int64

end LifecycleConfig

/-! ## The runtime -/

/-- `lifecycleRuntime`; the sessions stand under the keys of their connections. -/
structure LifecycleRuntime where
  node : Node
  authority : Authority
  membership : MembershipBook
  /-- the checkpoint that new sessions and the next compaction start from -/
  snapshot : Option Checkpoint
  checkpointPath : String
  sessions : String → Option RepairSession

/-- `fmt.Errorf("text: %w", err)` around a call; a crash is not an error. -/
def wrap {σ α : Type} (text : String) (x : EStateM Error σ α) : EStateM Error σ α :=
  rethrow (fun e => if e = .crash then .crash else .errorf text e) x

/-! ## Opening -/

variable (S : Stdlib)

/-- One turn of `verifyLifecycleRecords`. -/
def verifyLifecycleRecord (o : Oracle) (blobs : Blobs) (record : Record) :
    EStateM Error FS Unit := do
  ctxErr o 0
  if record.state ≠ .present then
    pure ()
  else do
    let data ← getBlob o blobs record.blobKey
    attempt (verifySHA256Key S record.blobKey data)

variable (F : Faults)

def verifyLifecycleRecords (blobs : Blobs) (records : List Record) : EStateM Error FS Unit :=
  forEach (fun i record => verifyLifecycleRecord S (F (.verify i)) blobs record) 0 records

/-- The checkpoint, unless there is no such file. -/
def loadExisting (o : Oracle) (path : String) (limits : Limits) :
    EStateM Error FS (Option Checkpoint) :=
  fun fs =>
    match loadCheckpoint S o path limits fs with
    | .ok c fs' => .ok (some c) fs'
    | .error e fs' =>
      if e.is .notExist then
        .ok none fs'
      else
        .error (if e = .crash then e else .errorf "lifecycle: load checkpoint" e) fs'

/-- The state that the checkpoint stands for. -/
def restoreCheckpoint (blobs : Blobs) (journal : Journal) (limits : Limits) :
    Option Checkpoint → EStateM Error FS Store
  | some checkpoint => do
    raiseIf (checkpoint.watermark ≠ journal.floor)
      (.checkpointFloorMismatch checkpoint.watermark journal.floor)
    wrap "lifecycle: verify checkpoint"
      (verifyLifecycleRecords S F blobs checkpoint.records)
    wrap "lifecycle: restore checkpoint"
      (attempt ((Store.new limits).replaceSnapshot S checkpoint.records))
  | none => do
    raiseIf (¬ journal.floor.IsZero)
      (.text "lifecycle: journal floor requires a checkpoint")
    pure (Store.new limits)

/-- The loop of `Journal.Replay`, which verifies and applies each record. -/
def replayRecords (blobs : Blobs) : Nat → Store → List Record → EStateM Error FS Store
  | _, store, [] => pure store
  | i, store, record :: rest => do
    ctxErr (F (.verify i)) 1
    verifyLifecycleRecord S (F (.verify i)) blobs record
    let (_, store) ← attempt (store.apply S record)
    replayRecords blobs (i + 1) store rest

/-- Replay the journal onto the state of the checkpoint; the positions go on behind
those of the checkpoint's `verified` records. -/
def replayJournal (blobs : Blobs) (journal : Journal) (verified : Nat) (store : Store) :
    EStateM Error FS Store := do
  let records ← attempt (journal.listRecords (F .journal))
  replayRecords S F blobs verified store records

/-- Install the configured members. -/
def configureMembership (config : LifecycleConfig) (membership : MembershipBook) :
    EStateM Error FS MembershipBook :=
  if config.membershipConfigured then
    fun fs =>
      match MembershipBook.replace S (F .membership) config.membershipMembers
          ⟨fs, membership⟩ with
      | .ok _ d => .ok d.obj d.fs
      | .error e d => .error e d.fs
  else
    pure membership

/-- Open the state directory; `none` when the lifecycle is not enabled.  `random` is
what the system offers for a new authority. -/
def openLifecycleRuntime (config : LifecycleConfig) (blobs : Option Blobs)
    (peerAuthToken : String) (peerID : Bytes) (random : UInt64) :
    EStateM Error FS (Option LifecycleRuntime) :=
  if config.enabled = false then
    pure none
  else do
    attempt (config.validate blobs peerAuthToken peerID)
    wrap "lifecycle: create state directory" (syscall (F .entry) .mkdir)
    let (journal, _) ← wrap "lifecycle: open journal"
      (openJournal S (F .journal) (config.statePath "journal") config.journalOptions)
    let authority ← wrap "lifecycle: open authority"
      (openAuthority S (F .authority) random (config.statePath "authority") peerID
        ⟨config.recordLimits, 0, journal.lastVersion⟩)
    let watermarks ← wrap "lifecycle: open watermarks"
      (openWatermarkBook S (F .watermark) (config.statePath "watermarks") ⟨0, 0, 0⟩)
    let membership ← wrap "lifecycle: open membership"
      (openMembershipBook S (F .membership) (config.statePath "membership") ⟨0, 0, 0⟩)
    let membership ← wrap "lifecycle: configure membership"
      (configureMembership S F config membership)
    let checkpoint ← loadExisting S (F .load) (config.statePath "checkpoint")
      config.recordLimits
    let contents := blobs.getD fun _ => none
    let store ← restoreCheckpoint S F contents journal config.recordLimits checkpoint
    let store ← wrap "lifecycle: replay journal" (replayJournal S F contents journal
      ((checkpoint.map Checkpoint.records).getD []).length store)
    let fs ← get
    pure (some
      { node :=
          { fs := fs
            journal := journal
            store := store
            blobs := blobs
            limits := config.recordLimits.normalized
            watermarks := watermarks
            repairLimits := config.repairLimits.normalized }
        authority := authority
        membership := membership
        snapshot := checkpoint
        checkpointPath := config.statePath "checkpoint"
        sessions := fun _ => none })

/-! ## Operations -/

namespace LifecycleRuntime

/-- Run an operation of the applier. -/
def onApplier {α : Type} (x : EStateM Error Applier α) :
    EStateM Error LifecycleRuntime α :=
  zoom (fun r => r.node.toApplier)
    (fun r a => { r with node := { r.node with toApplier := a } }) x

/-- Run an operation of the authority. -/
def onAuthority {α : Type} (x : EStateM Error (OnDisk Authority) α) :
    EStateM Error LifecycleRuntime α :=
  zoom (fun r => ⟨r.node.fs, r.authority⟩)
    (fun r d => { r with node := { r.node with fs := d.fs }, authority := d.obj }) x

def nextVersion : EStateM Error LifecycleRuntime Version := do
  let r ← get
  onAuthority (Authority.next S (F .authority) r.node.journal.lastVersion)

/-- Allocate a version and apply the record that carries it. -/
def mutate (nameSpace logicalKey : Bytes) (state : LifecycleState) (blobKey : Bytes)
    (data : Option Bytes) : EStateM Error LifecycleRuntime (Record × ApplyResult) := do
  let version ← nextVersion S F
  let r ← get
  let record : Record :=
    ⟨nameSpace, logicalKey, state, blobKey, version, r.authority.authorityID⟩
  let result ← onApplier (Applier.apply S F 0 [lifecycleCapabilityV1] record data)
  pure (record, result)

/-- The key of the blob, computed or checked. -/
def contentKey (data : Bytes) : Option Bytes → Except Error Bytes
  | none => .ok (S.sha256 data)
  | some key => do
    verifySHA256Key S key data
    .ok key

def put (nameSpace logicalKey data : Bytes) (blobKey : Option Bytes) :
    EStateM Error LifecycleRuntime (Record × ApplyResult) := do
  let r ← get
  attempt (r.node.store.validateKey nameSpace logicalKey)
  let key ← attempt (contentKey S data blobKey)
  mutate S F nameSpace logicalKey .present key (some data)

def delete (nameSpace logicalKey : Bytes) :
    EStateM Error LifecycleRuntime (Record × ApplyResult) := do
  let r ← get
  attempt (r.node.store.validateKey nameSpace logicalKey)
  mutate S F nameSpace logicalKey .deleted [] none

/-- Compact the journal up to its last version. -/
def compact : EStateM Error LifecycleRuntime Unit := do
  let r ← get
  let target := r.node.journal.lastVersion
  raiseIf (target.compare r.node.journal.floor ≤ 0) .compactionNoProgress
  let peerWatermarks ← attempt (r.membership.watermarksAt (F .membership)
    r.node.watermarks target)
  let checkpoint : Checkpoint := ⟨target, r.node.store.snapshot⟩
  onApplier (onJournal (Journal.compact S F
    ⟨r.checkpointPath, target, checkpoint.records, r.snapshot, peerWatermarks⟩))
  modify fun r => { r with snapshot := some checkpoint }

/-- `lifecycle.repair-reconcile.v1` -/
def hasRepairReconciliationCapability (capabilities : List String) : Bool :=
  capabilities.any fun capability => capability == "lifecycle.repair-reconcile.v1"

/-- `AttachPeer`: a new session for the connection, if the peer may have one. -/
def attachPeer (key : String) (remoteID : Bytes) (capabilities : List String)
    (maxFrameBytes : Int) (r : LifecycleRuntime) : LifecycleRuntime :=
  if hasLifecycleCapability capabilities = false ∨ remoteID = [] then
    r
  else
    match RepairSession.new S r.node remoteID capabilities r.snapshot r.checkpointPath
        maxFrameBytes (hasRepairReconciliationCapability capabilities) with
    | .error _ => r
    | .ok session => { r with sessions := Function.update r.sessions key (some session) }

/-- `ForgetPeer` -/
def forgetPeer (key : String) (r : LifecycleRuntime) : LifecycleRuntime :=
  { r with sessions := Function.update r.sessions key none }

/-- `HandleFrame`; the acknowledgements that the session writes go to the peer. -/
def handleFrame (key : String) (payload : Bytes) : EStateM Error LifecycleRuntime Unit := do
  match (← get).sessions key with
  | none => throw (.text "lifecycle: repair session unavailable")
  | some session =>
    zoom (fun r => ⟨r.node, session, []⟩)
      (fun r s => { r with
        node := s.node
        sessions := Function.update r.sessions key (some s.session) })
      (RepairSession.handle S F payload)

/-- `Close` -/
def close (F : Faults) : EStateM Error LifecycleRuntime Unit := do
  modify fun r => { r with sessions := fun _ => none }
  onApplier (onJournal (Journal.close (F .journal)))

end LifecycleRuntime

/-! ## Runs -/

inductive RuntimeCall where
  | put (nameSpace logicalKey data : Bytes) (blobKey : Option Bytes)
  | delete (nameSpace logicalKey : Bytes)
  | compact
  | attachPeer (key : String) (remoteID : Bytes) (capabilities : List String)
      (maxFrameBytes : Int)
  | forgetPeer (key : String)
  | handleFrame (key : String) (payload : Bytes)

/-- A call with the verdicts on everything it does and the contents of the blob store
at the time. -/
structure RuntimeStep where
  call : RuntimeCall
  faults : Faults
  blobs : Blobs

namespace RuntimeStep

/-- The result of the call. -/
def result (step : RuntimeStep) (r : LifecycleRuntime) :
    EStateM.Result Error LifecycleRuntime Unit :=
  let r := { r with node := { r.node with blobs := some step.blobs } }
  match step.call with
  | .put nameSpace logicalKey data blobKey =>
    discard (LifecycleRuntime.put S step.faults nameSpace logicalKey data blobKey r)
  | .delete nameSpace logicalKey =>
    discard (LifecycleRuntime.delete S step.faults nameSpace logicalKey r)
  | .compact => LifecycleRuntime.compact S step.faults r
  | .attachPeer key remoteID capabilities maxFrameBytes =>
    .ok () (r.attachPeer S key remoteID capabilities maxFrameBytes)
  | .forgetPeer key => .ok () (r.forgetPeer key)
  | .handleFrame key payload => LifecycleRuntime.handleFrame S step.faults key payload r

end RuntimeStep

/-- The runtime after a step. -/
def LifecycleRuntime.step (S : Stdlib) (r : LifecycleRuntime) (step : RuntimeStep) :
    LifecycleRuntime := finalState (step.result S r)

end StreamHive.Lifecycle
