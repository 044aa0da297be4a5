import StreamHive.Lifecycle.ApplierRun
import StreamHive.Lifecycle.Session
import StreamHive.Replication.Protocol
import StreamHive.Verified.Transition

/-!
# A repair session at work

`RepairSession.Run` is one goroutine; the reader of the connection, which calls
`RepairSession.Handle` for one frame after the other, is a second; the rest of the
process puts and deletes records and serves other sessions.  Here the first two
are program counters, `RunPhase` and `ReaderPhase`, and every lock-protected
section and every channel operation of them is one step.  A run is a list of
actions in the order in which the scheduler takes them; an action that cannot be
taken, such as a receive from an empty channel, changes nothing.

`beforeRepair` is the raw blob preflight that `AttachPeer` installs:
`recordsForRawSync`, and then one blob after the other, each acknowledged by the
peer before the next.  `RunHistory` records what the run has done so far; the
program does not read it.

A received batch or snapshot is handled in one step.

## Main results

* `RunState.advance_sendNext`, `RunState.receive_handle` — the steps of `SendNext`
  and of `Handle`, taken without a break, are `RepairSession.sendNext` and
  `RepairSession.handle`.
-/

namespace StreamHive.Lifecycle

open Verified ByteString Effect Log

/-! ## Where the goroutines are -/

/-- The raw blob preflight of a session; `beforeRepair` is nil when it is not
enabled. -/
structure RawSync where
  enabled : Bool
  limits : Replication.Limits
  maxFrameBytes : Int
  retries : Nat
  deriving DecidableEq

/-- What `Run` does next. -/
inductive RunPhase where
  /-- read the watermark to report, when the session reconciles -/
  | start
  /-- write the report -/
  | greeting (watermark : Version)
  /-- read the tail of the journal -/
  | greeted
  /-- read whether the peer has reported -/
  | asking
  /-- receive from `helloNotify` -/
  | parked
  /-- call `beforeRepair` -/
  | before
  /-- list the journal -/
  | listing
  /-- read the watermark for the preflight -/
  | marking (records : List Record)
  /-- read the floor for the preflight -/
  | bounding (records : List Record) (watermark : Version)
  /-- read the checkpoint for the preflight -/
  | collecting (records : List Record) (watermark : Version)
  /-- load the next raw blob -/
  | syncing (rest : List Record)
  /-- write a raw blob -/
  | sending (payload key : Bytes) (attempt : Nat) (rest : List Record)
  /-- wait until the peer has acknowledged the blob -/
  | confirming (payload key : Bytes) (attempt : Nat) (acked : Bool) (rest : List Record)
  /-- call `SendNext` -/
  | next
  /-- read the watermark to plan from -/
  | reading
  /-- plan a frame -/
  | planning (from_ : Version)
  /-- write the planned frame -/
  | writing (plan : RepairPlan)
  /-- compare the watermark with the end of the plan -/
  | awaiting (plan : RepairPlan)
  /-- receive from `ackNotify` -/
  | blocked (plan : RepairPlan)
  | returned
  | failed (e : Error)
  deriving DecidableEq

/-- What the reader does next. -/
inductive ReaderPhase where
  /-- read a frame -/
  | idle
  /-- take an acknowledgement as the report, if it is the first -/
  | accepting (watermark : Version)
  /-- read the tail of the journal -/
  | reported (watermark : Version)
  /-- make the checks in front of the report -/
  | reconciling (watermark : Version)
  /-- record the report -/
  | recording (watermark : Version)
  /-- make the checks in front of the acknowledgement -/
  | advancing (watermark : Version)
  /-- record the acknowledgement -/
  | acknowledging (watermark : Version)
  /-- send to `ackNotify` -/
  | signalling
  | failed (e : Error)
  deriving DecidableEq

/-- What a run has done so far. -/
structure RunHistory where
  /-- the watermark that the preflight has read -/
  preflight : List Version
  /-- the records that the preflight has selected -/
  selected : List Record
  /-- the raw blobs that the peer has acknowledged -/
  confirmed : List Bytes
  /-- the watermarks that were planned from -/
  planned : List Version
  /-- the plans whose frame was handed to the peer -/
  sent : List RepairPlan
  /-- the peer's report has been recorded -/
  recorded : Bool
  /-- the acknowledgements that have been recorded -/
  acked : List Version
  deriving DecidableEq

def RunHistory.empty : RunHistory := ⟨[], [], [], [], [], false, []⟩

/-- A session at work.  `checkpoint` is the one that the runtime keeps, from which
the preflight reads; each channel holds at most one signal. -/
structure RunState where
  conn : SessionState
  checkpoint : Option Checkpoint
  raw : RawSync
  helloNotify : Bool
  ackNotify : Bool
  run : RunPhase
  reader : ReaderPhase
  past : RunHistory

/-! ## Run -/

/-- Present records newer than the watermark, one for each blob key:
`appendRecord` of `recordsForRawSync` over a list. -/
def selectRaw (watermark : Version) : List Record → List Record → List Record
  | selected, [] => selected
  | selected, record :: rest =>
    if record.state ≠ .present ∨ record.version.compare watermark ≤ 0 then
      selectRaw watermark selected rest
    else if selected.any fun r => r.blobKey == record.blobKey then
      selectRaw watermark selected rest
    else
      selectRaw watermark (selected ++ [record]) rest

variable (S : Stdlib) (F : Faults)

/-- Read a raw blob and encode its frame. -/
def loadRaw (raw : RawSync) (record : Record) : EStateM Error SessionState Bytes := do
  match (← get).node.blobs with
  | none => throw (.text "lifecycle: raw blob preflight store unavailable")
  | some blobs => do
    let data ← getBlob (F (.blob 0)) blobs record.blobKey
    attempt (verifySHA256Key S record.blobKey data)
    attempt (Replication.encodeBlobPut record.blobKey data raw.limits)

/-- The checks of `SendNext` and `RepairCoordinator.Plan` in front of the plan. -/
def checkNext : EStateM Error SessionState Unit := do
  ctxErr (F .entry) 0
  RepairSession.requireCapability
  attempt (ctxCheck (F .coordinator) 0)
  let s ← get
  attempt (s.node.watermarks.validatePeer S s.session.peerID)

/-- Where `Run` goes when a plan has been acknowledged. -/
def RepairPlan.settled (plan : RepairPlan) : RunPhase :=
  if plan.more then .next else .returned

/-- Where `Run` goes when a plan has been written. -/
def RepairPlan.written (plan : RepairPlan) : RunPhase :=
  if plan.to_.compare plan.from_ > 0 then .awaiting plan else plan.settled

namespace RunState

variable (r : RunState)

def goto (phase : RunPhase) : RunState := { r with run := phase }

/-- Make a call: go on with its result, or return its error. -/
def call {α : Type} (r : RunState) (x : EStateM Error SessionState α)
    (next : α → RunPhase) : RunState :=
  match x r.conn with
  | .ok a s => { r with conn := s, run := next a }
  | .error e s => { r with conn := s, run := .failed e }

/-- Wait for a signal, or for the context to be canceled. -/
def await (signal : Bool) (woken : RunState) : RunState :=
  match ctxCheck (F .entry) 0 with
  | .ok _ => if signal then woken else r
  | .error e => r.goto (.failed e)

/-- The records of the checkpoint, if there is one. -/
def checkpointRecords : List Record :=
  (r.checkpoint.map Checkpoint.records).getD []

/-- The preflight has selected its records. -/
def sync (selected : List Record) : RunState :=
  { r with run := .syncing selected, past := { r.past with selected := selected } }

/-- The next step of `Run`. -/
def advance : RunState :=
  match r.run with
  | .start =>
    r.goto (if r.conn.session.reconcilePeer then .greeting r.conn.watermark else .before)
  | .greeting watermark => r.call (RepairSession.writeAck S F watermark) fun _ => .greeted
  | .greeted => r.goto (if r.conn.node.journal.lastVersion.IsZero then .before else .asking)
  | .asking => r.goto (if r.conn.session.helloReceived then .before else .parked)
  | .parked => r.await F r.helloNotify { r with helloNotify := false, run := .before }
  | .before => r.goto (if r.raw.enabled then .listing else .next)
  | .listing =>
    match r.conn.node.journal.listRecords (F .journal) with
    | .ok records => r.goto (.marking records)
    | .error e => r.goto (.failed e)
  | .marking records =>
    { r with
      run := .bounding records r.conn.watermark
      past := { r.past with preflight := r.past.preflight ++ [r.conn.watermark] } }
  | .bounding records watermark =>
    if watermark.compare r.conn.node.journal.floor < 0 then
      r.goto (.collecting records watermark)
    else
      r.sync (selectRaw watermark [] records)
  | .collecting records watermark =>
    r.sync (selectRaw watermark [] (records ++ r.checkpointRecords))
  | .syncing [] => r.goto .next
  | .syncing (record :: rest) =>
    r.call (loadRaw S F r.raw record) fun payload => .sending payload record.blobKey 0 rest
  | .sending payload key attempt rest =>
    match writeFrame (F .frame) payload r.raw.maxFrameBytes r.conn with
    | .ok _ s => { r with conn := s, run := .confirming payload key attempt false rest }
    | .error e s =>
      { r with conn := s, run := .failed (.errorf "replication: write blob" e) }
  | .confirming _ _ _ acked rest => if acked then r.goto (.syncing rest) else r.await F false r
  | .next => r.call (checkNext S F) fun _ => .reading
  | .reading =>
    { r with
      run := .planning r.conn.watermark
      past := { r.past with planned := r.past.planned ++ [r.conn.watermark] } }
  | .planning from_ =>
    match planRepair S (F .coordinator) r.conn.node.journal from_ r.conn.session.snapshot
        r.conn.node.repairLimits with
    | .error e => r.goto (.failed e)
    | .ok plan =>
      if plan.payload.length > r.conn.session.maxFrameBytes then
        r.goto (.failed .repairFrameTooLarge)
      else
        r.goto (.writing plan)
  | .writing plan =>
    { r.call (writeFrame (F .frame) plan.payload r.conn.session.maxFrameBytes)
        (fun _ => plan.written) with
      past := { r.past with sent := r.past.sent ++ [plan] } }
  | .awaiting plan =>
    r.goto (if r.conn.watermark.compare plan.to_ ≥ 0 then plan.settled else .blocked plan)
  | .blocked plan => r.await F r.ackNotify { r with ackNotify := false, run := .awaiting plan }
  | .returned | .failed _ => r

/-- The timer of a raw blob fires: send it again, or give up. -/
def expire : RunState :=
  match r.run with
  | .confirming payload key attempt acked rest =>
    if acked then
      r.goto (.syncing rest)
    else if attempt = r.raw.retries then
      r.goto (.failed (.text "replication: timed out waiting for blob acknowledgment"))
    else
      match ctxCheck (F .entry) 1 with
      | .ok _ => r.goto (.sending payload key (attempt + 1) rest)
      | .error e => r.goto (.failed e)
  | _ => r

/-- The peer acknowledges a raw blob. -/
def blobAck (key : Bytes) : RunState :=
  match r.run with
  | .confirming payload expected attempt false rest =>
    if key = expected then
      { r with
        run := .confirming payload expected attempt true rest
        past := { r.past with confirmed := r.past.confirmed ++ [key] } }
    else
      r
  | _ => r

/-! ## The reader -/

/-- Make a call of the reader: go on, or return its error, which ends the
connection. -/
def serve (x : EStateM Error SessionState Unit) (done : RunState → RunState) : RunState :=
  match x r.conn with
  | .ok _ s => done { r with conn := s }
  | .error e s => { r with conn := s, reader := .failed e }

/-- The checks and the decoding of `Handle`. -/
def decode (payload : Bytes) : EStateM Error SessionState RepairFrame := do
  ctxErr (F .entry) 0
  RepairSession.requireCapability
  let s ← get
  attempt (decodeRepairFrameForPeer S payload s.session.capabilities s.node.repairLimits)

/-- `Handle` is called with a payload. -/
def receive (payload : Bytes) (r : RunState) : RunState :=
  match r.reader with
  | .idle =>
    match decode S F payload r.conn with
    | .error e s => { r with conn := s, reader := .failed e }
    | .ok frame s =>
      match frame.ack with
      | some ack =>
        { r with
          conn := s
          reader := if s.session.reconcilePeer then .accepting ack.watermark
            else .advancing ack.watermark }
      | none => { r with conn := s }.serve (RepairSession.handleFrame S F frame) id
  | _ => r

/-- `acceptStartupWatermark`: the first acknowledgement is the report. -/
def accept (watermark : Version) : RunState :=
  if r.conn.session.helloReceived then
    { r with reader := .advancing watermark }
  else
    { r with
      conn := { r.conn with session := { r.conn.session with helloReceived := true } }
      helloNotify := true
      reader := .reported watermark }

/-- The coordinator's checks, which read the tail of the journal. -/
def checkBook (s : SessionState) (watermark : Version) : EStateM Error SessionState Unit :=
  SessionState.onBook (RepairCoordinator.withinJournal S F s.node.journal s.session.peerID
    watermark (pure ()))

/-- The next step of `Handle` on an acknowledgement. -/
def handle : RunState :=
  match r.reader with
  | .accepting watermark => r.accept watermark
  | .reported watermark =>
    { r with
      reader := if r.conn.node.journal.lastVersion.IsZero then .idle
        else .reconciling watermark }
  | .reconciling watermark =>
    r.serve (checkBook S F r.conn watermark) fun r => { r with reader := .recording watermark }
  | .recording watermark =>
    r.serve (SessionState.onBook (WatermarkBook.reconcile S F r.conn.session.peerID watermark))
      fun r => { r with reader := .idle, past := { r.past with recorded := true } }
  | .advancing watermark =>
    r.serve (checkBook S F r.conn watermark)
      fun r => { r with reader := .acknowledging watermark }
  | .acknowledging watermark =>
    r.serve (SessionState.onBook
        (WatermarkBook.acknowledge S F r.conn.session.peerID watermark))
      fun r => { r with
        reader := .signalling
        past := { r.past with acked := r.past.acked ++ [watermark] } }
  | .signalling => { r with ackNotify := true, reader := .idle }
  | .idle | .failed _ => r

end RunState

/-! ## Runs -/

variable {F}

/-- One step of one goroutine. -/
inductive RunAction where
  /-- `Run` -/
  | run (F : Faults)
  /-- the reader, with a new frame -/
  | receive (F : Faults) (payload : Bytes)
  /-- the reader, on the frame at hand -/
  | handle (F : Faults)
  /-- the peer acknowledges a raw blob -/
  | blobAck (key : Bytes)
  /-- the timer of a raw blob fires -/
  | expire (F : Faults)
  /-- a put, a delete, or a record or snapshot of another session -/
  | other (step : ApplierStep)

namespace RunState

/-- Another goroutine changes the node. -/
def mutate (r : RunState) (step : ApplierStep) : RunState :=
  { r with conn := { r.conn with node := { r.conn.node with
      toApplier := finalState (step.result S r.conn.node.toApplier) } } }

def step (S : Stdlib) (r : RunState) : RunAction → RunState
  | .run F => r.advance S F
  | .receive F payload => r.receive S F payload
  | .handle F => r.handle S F
  | .blobAck key => r.blobAck key
  | .expire F => r.expire F
  | .other step => r.mutate S step

def steps (r : RunState) (actions : List RunAction) : RunState :=
  Transition.run (step S) r actions

/-! ## SendNext without a break -/

variable {S : Stdlib} {F : Faults} {r : RunState}

/-- `SendNext` after its checks. -/
def planAndWrite (S : Stdlib) (F : Faults) : EStateM Error SessionState RepairPlan := do
  let s ← get
  let plan ← attempt (planRepair S (F .coordinator) s.node.journal s.watermark
    s.session.snapshot s.node.repairLimits)
  raiseIf (plan.payload.length > s.session.maxFrameBytes) .repairFrameTooLarge
  writeFrame (F .frame) plan.payload s.session.maxFrameBytes
  pure plan

/-- `SendNext` is its checks, and then the plan. -/
theorem sendNext_eq :
    RepairSession.sendNext S F = checkNext S F >>= fun _ => planAndWrite S F := by
  unfold RepairSession.sendNext checkNext
  simp only [bind_assoc]
  refine bind_congr fun _ => bind_congr fun _ => funext fun s => ?_
  rw [run_bind_get]
  unfold RepairCoordinator.plan
  cases ctxCheck (F .coordinator) 0 with
  | error e => rfl
  | ok _ =>
    rw [run_bind_ok (run_attempt rfl), run_bind_get]
    cases s.node.watermarks.validatePeer S s.session.peerID with
    | error e | ok _ => rfl

/-- The session and the phase after a call of `Run`. -/
def Ends {α : Type} (r : RunState) (next : α → RunPhase) :
    EStateM.Result Error SessionState α → Prop
  | .ok a s => r.conn = s ∧ r.run = next a
  | .error e s => r.conn = s ∧ r.run = .failed e

theorem advance_planning (r : RunState) :
    ((advance S F)^[2] (r.goto (.planning r.conn.watermark))).Ends RepairPlan.written
      (planAndWrite S F r.conn) := by
  unfold planAndWrite
  rw [run_bind_get, Function.iterate_succ_apply]
  dsimp only [advance, goto]
  cases planRepair S (F .coordinator) r.conn.node.journal r.conn.watermark
      r.conn.session.snapshot r.conn.node.repairLimits with
  | error e => exact ⟨rfl, rfl⟩
  | ok plan =>
    rw [run_bind_ok (run_attempt rfl)]
    dsimp only
    by_cases hsize : plan.payload.length > r.conn.session.maxFrameBytes
    · rw [run_bind_error (run_raiseIf_error hsize), if_pos hsize]
      exact ⟨rfl, rfl⟩
    · rw [run_bind_ok (run_raiseIf hsize), if_neg hsize, Function.iterate_one]
      dsimp only [advance, call]
      cases hwrite : writeFrame (F .frame) plan.payload r.conn.session.maxFrameBytes r.conn with
      | ok u s =>
        rw [run_bind_ok hwrite]
        exact ⟨rfl, rfl⟩
      | error e s =>
        rw [run_bind_error hwrite]
        exact ⟨rfl, rfl⟩

/-- The steps of `SendNext`, taken without a break, are `RepairSession.sendNext`. -/
theorem advance_sendNext (S : Stdlib) (F : Faults) (r : RunState) :
    ((advance S F)^[4] (r.goto .next)).Ends RepairPlan.written
      (RepairSession.sendNext S F r.conn) := by
  rw [sendNext_eq, Function.iterate_succ_apply]
  dsimp only [advance, goto, call]
  cases hcheck : checkNext S F r.conn with
  | error e s =>
    rw [run_bind_error hcheck]
    exact ⟨rfl, rfl⟩
  | ok _ s =>
    rw [run_bind_ok hcheck, Function.iterate_succ_apply]
    exact advance_planning (advance S F { r with conn := s, run := .reading })

/-! ## Handle without a break -/

/-- The session with another book. -/
def withBook (s : SessionState) (d : OnDisk WatermarkBook) : SessionState :=
  { s with node := { s.node with fs := d.fs, watermarks := d.obj } }

theorem run_onBook {x : EStateM Error (OnDisk WatermarkBook) Unit} {s : SessionState}
    {d : OnDisk WatermarkBook} (h : x ⟨s.node.fs, s.node.watermarks⟩ = .ok () d) :
    SessionState.onBook x s = .ok () (withBook s d) := by
  unfold SessionState.onBook zoom
  rw [h]
  rfl

theorem run_onBook_error {x : EStateM Error (OnDisk WatermarkBook) Unit} {s : SessionState}
    {d : OnDisk WatermarkBook} {e : Error}
    (h : x ⟨s.node.fs, s.node.watermarks⟩ = .error e d) :
    SessionState.onBook x s = .error e (withBook s d) := by
  unfold SessionState.onBook zoom
  rw [h]
  rfl

/-- The coordinator's checks change nothing; after them the call is made. -/
theorem withinJournal_cases (S : Stdlib) (F : Faults) (j : Journal) (peer : Bytes)
    (v : Version) (d : OnDisk WatermarkBook) :
    (∃ e, ∀ call, RepairCoordinator.withinJournal S F j peer v call d = .error e d) ∨
      ((∀ call, RepairCoordinator.withinJournal S F j peer v call d = call d) ∧
        v ≤ j.lastVersion) := by
  unfold RepairCoordinator.withinJournal
  rcases ctxErr_cases (F .coordinator) 0 d with ⟨_, e, he⟩ | ⟨_, hx⟩
  · exact .inl ⟨e, fun _ => run_bind_error he⟩
  simp only [run_bind_ok hx, run_bind_get]
  cases hpeer : d.obj.validatePeer S peer with
  | error e => exact .inl ⟨e, fun _ => run_bind_error (run_attempt_error rfl)⟩
  | ok u =>
    simp only [run_bind_ok (run_attempt (show Except.ok u = Except.ok u from rfl))]
    by_cases hlast : ¬ v.IsZero ∧ v.compare j.lastVersion > 0
    · exact .inl ⟨_, fun _ => run_bind_error (run_raiseIf_error hlast)⟩
    · exact .inr ⟨fun _ => run_bind_ok (run_raiseIf hlast),
        RepairCoordinator.within_journal.mp hlast⟩

/-- A call of the coordinator on the book is its checks, and then the call. -/
theorem checkBook_cases (S : Stdlib) (F : Faults) (s : SessionState) (v : Version) :
    (∃ e, checkBook S F s v s = .error e s ∧ ∀ call, SessionState.onBook
        (RepairCoordinator.withinJournal S F s.node.journal s.session.peerID v call) s =
          .error e s) ∨
      (checkBook S F s v s = .ok () s ∧ v ≤ s.node.journal.lastVersion ∧
        ∀ call, SessionState.onBook
          (RepairCoordinator.withinJournal S F s.node.journal s.session.peerID v call) s =
            SessionState.onBook call s) := by
  unfold checkBook SessionState.onBook zoom
  rcases withinJournal_cases S F s.node.journal s.session.peerID v
      ⟨s.node.fs, s.node.watermarks⟩ with ⟨e, he⟩ | ⟨hok, hlast⟩
  · refine .inl ⟨e, ?_, fun call => ?_⟩
    · rw [he]
    · rw [he]
  · refine .inr ⟨?_, hlast, fun call => ?_⟩
    · rw [hok]
      rfl
    · rw [hok]

/-- The session and the phase of the reader after a call of `Handle`. -/
def Handled (r : RunState) : EStateM.Result Error SessionState Unit → Prop
  | .ok _ s => r.conn = s ∧ r.reader = .idle
  | .error e s => r.conn = s ∧ r.reader = .failed e

/-- An acknowledgement that is not the report. -/
theorem handle_advancing (r : RunState) (v : Version) :
    ((handle S F)^[3] { r with reader := .advancing v }).Handled (SessionState.onBook
      (RepairCoordinator.acknowledge S F r.conn.node.journal r.conn.session.peerID v) r.conn) := by
  rw [Function.iterate_succ_apply]
  unfold RepairCoordinator.acknowledge
  dsimp only [handle, serve]
  rcases checkBook_cases S F r.conn v with ⟨e, he, hcall⟩ | ⟨hok, _, hcall⟩
  · rw [he, hcall]
    exact ⟨rfl, rfl⟩
  rw [hok, hcall, Function.iterate_succ_apply]
  dsimp only [handle, serve]
  cases SessionState.onBook (WatermarkBook.acknowledge S F r.conn.session.peerID v) r.conn with
  | ok u s | error e s => exact ⟨rfl, rfl⟩

/-- The report, once it has been accepted. -/
theorem handle_reconciling (r : RunState) (v : Version) :
    ((handle S F)^[2] { r with reader := .reconciling v }).Handled (SessionState.onBook
      (RepairCoordinator.reconcile S F r.conn.node.journal r.conn.session.peerID v) r.conn) := by
  rw [Function.iterate_succ_apply]
  unfold RepairCoordinator.reconcile
  dsimp only [handle, serve]
  rcases checkBook_cases S F r.conn v with ⟨e, he, hcall⟩ | ⟨hok, _, hcall⟩
  · rw [he, hcall]
    exact ⟨rfl, rfl⟩
  rw [hok, hcall, Function.iterate_one]
  dsimp only [handle, serve]
  cases SessionState.onBook (WatermarkBook.reconcile S F r.conn.session.peerID v) r.conn with
  | ok u s | error e s => exact ⟨rfl, rfl⟩

theorem handled_iterate {x : EStateM.Result Error SessionState Unit} (h : r.Handled x)
    (n : Nat) : ((handle S F)^[n] r).Handled x := by
  have hstep : r.handle S F = r := by
    cases x with
    | ok u s | error e s => rw [handle, h.2]
  rw [Function.iterate_fixed hstep]
  exact h

/-- An acknowledgement, once it has been decoded. -/
theorem accept_handle (r : RunState) (ack : RepairAck) :
    ((handle S F)^[4] { r with
      reader := if r.conn.session.reconcilePeer then .accepting ack.watermark
        else .advancing ack.watermark }).Handled (RepairSession.handleAck S F ack r.conn) := by
  unfold RepairSession.handleAck
  rw [run_bind_get]
  cases r.conn.session.reconcilePeer with
  | false =>
    simp only [Bool.false_eq_true, false_and, if_false]
    exact handled_iterate (handle_advancing r ack.watermark) 1
  | true =>
    simp only [true_and, if_true]
    rw [Function.iterate_succ_apply]
    dsimp only [handle, accept]
    cases r.conn.session.helloReceived with
    | true => exact handle_advancing r ack.watermark
    | false =>
      simp only [Bool.false_eq_true, if_false, if_true]
      rw [Function.iterate_succ_apply]
      dsimp only [handle]
      by_cases hlast : r.conn.node.journal.lastVersion.IsZero
      · rw [if_pos hlast, if_neg (not_not.mpr hlast)]
        exact ⟨rfl, rfl⟩
      · rw [if_neg hlast, if_pos hlast]
        exact handle_reconciling { r with
          conn := { r.conn with session := { r.conn.session with helloReceived := true } }
          helloNotify := true } ack.watermark

/-- The steps of `Handle`, taken without a break, are `RepairSession.handle`. -/
theorem receive_handle (S : Stdlib) (F : Faults) (r : RunState) (payload : Bytes) :
    ((handle S F)^[4] ({ r with reader := .idle }.receive S F payload)).Handled
      (RepairSession.handle S F payload r.conn) := by
  have hhandle : RepairSession.handle S F payload =
      decode S F payload >>= RepairSession.handleFrame S F := by
    unfold RepairSession.handle decode
    simp only [bind_assoc]
  rw [hhandle]
  dsimp only [receive]
  cases hdecode : decode S F payload r.conn with
  | error e s =>
    rw [run_bind_error hdecode]
    exact ⟨rfl, rfl⟩
  | ok frame s =>
    rw [run_bind_ok hdecode]
    dsimp only
    cases hack : frame.ack with
    | none =>
      dsimp only [serve]
      cases RepairSession.handleFrame S F frame s with
      | ok u t | error e t => exact ⟨rfl, rfl⟩
    | some ack =>
      have hframe : RepairSession.handleFrame S F frame s = RepairSession.handleAck S F ack s := by
        unfold RepairSession.handleFrame
        rw [hack]
      rw [hframe]
      exact accept_handle { r with conn := s } ack

end RunState

end StreamHive.Lifecycle
