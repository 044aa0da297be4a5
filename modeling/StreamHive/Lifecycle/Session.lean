import StreamHive.Lifecycle.Applier
import StreamHive.Lifecycle.RepairPlan
import StreamHive.Lifecycle.Watermark
import StreamHive.Transport.Frame

/-!
# Repair sessions

`RepairSession.SendNext` and `RepairSession.Handle`, with the calls they make on
the coordinator, the applier and the peer.  A `Node` is what the sessions of one
process share; a session adds what it knows about its peer, and the frames that
it has written.

`WriteFrame` may deliver a frame although it reports an error.  The channel on
which `Handle` signals an acknowledgement only wakes `Run`, which then reads the
watermark again, so it is not part of the state.

## Main results

* `writeAck_cases` — what is written, and that nothing else changes;
* `handle_cases` — `Handle` refuses a frame, or acts on what it decodes to.
-/

namespace StreamHive.Lifecycle

open Verified ByteString Effect FileSystem Log
open Transport (defaultMaxFrameBytes)

/-! ## State -/

/-- What the sessions of one process share. -/
structure Node extends Applier where
  watermarks : WatermarkBook
  repairLimits : RepairLimits

/-- A sender and receiver for one peer. -/
structure RepairSession where
  peerID : Bytes
  capabilities : List String
  snapshot : Option Checkpoint
  checkpointPath : String
  maxFrameBytes : Int
  reconcilePeer : Bool
  helloReceived : Bool
  deriving DecidableEq

/-- A session at work: the node, the session and the frames written so far. -/
structure SessionState where
  node : Node
  session : RepairSession
  outbox : List Bytes

namespace SessionState

/-- Run an operation of the applier. -/
def onApplier {α : Type} (x : EStateM Error Applier α) : EStateM Error SessionState α :=
  zoom (fun s => s.node.toApplier)
    (fun s a => { s with node := { s.node with toApplier := a } }) x

/-- Run an operation of the watermark book. -/
def onBook {α : Type} (x : EStateM Error (OnDisk WatermarkBook) α) :
    EStateM Error SessionState α :=
  zoom (fun s => ⟨s.node.fs, s.node.watermarks⟩)
    (fun s d => { s with node := { s.node with fs := d.fs, watermarks := d.obj } }) x

/-- The version that the peer is known to have. -/
def watermark (s : SessionState) : Version := s.node.watermarks.watermark s.session.peerID

/-- The frame has been written. -/
def wrote (s : SessionState) (payload : Bytes) : SessionState :=
  { s with outbox := s.outbox ++ [payload] }

end SessionState

/-! ## The program -/

/-- Write one frame to the peer; a failing write may have delivered it. -/
def writeFrame (o : Oracle) (payload : Bytes) (maxPayload : Int) :
    EStateM Error SessionState Unit := do
  raiseIf (payload.length > orDefault maxPayload defaultMaxFrameBytes) .frameTooLarge
  match o .writeFrame with
  | .proceed => modify fun s => s.wrote payload
  | .fail delivered => do
    modify fun s => if delivered = 0 then s else s.wrote payload
    throw (.io .writeFrame)
  | .crash delivered => do
    modify fun s => if delivered = 0 then s else s.wrote payload
    throw .crash

namespace RepairCoordinator

/-- The next payload for a peer, from its watermark. -/
def plan (S : Stdlib) (o : Oracle) (node : Node) (peer : Bytes)
    (snapshot : Option Checkpoint) : Except Error RepairPlan := do
  ctxCheck o 0
  node.watermarks.validatePeer S peer
  planRepair S o node.journal (node.watermarks.watermark peer) snapshot node.repairLimits

end RepairCoordinator

variable (S : Stdlib)

/-- Refuse lifecycle data from a peer without the capability. -/
def decodeRepairFrameForPeer (payload : Bytes) (capabilities : List String)
    (limits : RepairLimits) : Except Error RepairFrame :=
  if hasLifecycleCapability capabilities = false then
    .error .lifecycleCapabilityRequired
  else
    decodeRepairFrame S payload limits

namespace RepairSession

/-- The session of a peer. -/
def new (node : Node) (peerID : Bytes) (capabilities : List String)
    (snapshot : Option Checkpoint) (checkpointPath : String) (maxFrameBytes : Int)
    (reconcilePeer : Bool) : Except Error RepairSession := do
  node.watermarks.validatePeer S peerID
  .ok ⟨peerID, capabilities, snapshot, checkpointPath,
    orDefault (if maxFrameBytes ≤ 0 then node.repairLimits.maxFrameBytes else maxFrameBytes)
      defaultMaxRepairFrameBytes, reconcilePeer, false⟩

/-- The peer must have negotiated the lifecycle capability. -/
def requireCapability : EStateM Error SessionState Unit := do
  raiseIf (hasLifecycleCapability (← get).session.capabilities = false)
    .lifecycleCapabilityRequired

variable (F : Faults)

def writeAck (watermark : Version) : EStateM Error SessionState Unit := do
  ctxErr (F .frame) 0
  let s ← get
  let payload ← attempt (encodeRepairAck S ⟨repairAckMessageType, watermark⟩
    s.node.repairLimits)
  writeFrame (F .frame) payload s.session.maxFrameBytes

def sendStartupWatermark : EStateM Error SessionState Unit := do
  writeAck S F (← get).watermark

/-- Plan and write one bounded repair frame. -/
def sendNext : EStateM Error SessionState RepairPlan := do
  ctxErr (F .entry) 0
  requireCapability
  let s ← get
  let plan ← attempt (RepairCoordinator.plan S (F .coordinator) s.node s.session.peerID
    s.session.snapshot)
  raiseIf (plan.payload.length > s.session.maxFrameBytes) .repairFrameTooLarge
  writeFrame (F .frame) plan.payload s.session.maxFrameBytes
  pure plan

/-- The first acknowledgement of a reconciling session is the peer's startup
report; all others are acknowledgements. -/
def handleAck (ack : RepairAck) : EStateM Error SessionState Unit := do
  let s ← get
  if s.session.reconcilePeer = true ∧ s.session.helloReceived = false then do
    modify fun s => { s with session := { s.session with helloReceived := true } }
    if ¬ s.node.journal.lastVersion.IsZero then
      SessionState.onBook (RepairCoordinator.reconcile S F s.node.journal s.session.peerID
        ack.watermark)
    else
      pure ()
  else
    SessionState.onBook (RepairCoordinator.acknowledge S F s.node.journal s.session.peerID
      ack.watermark)

/-- Apply the records of a batch in order. -/
def applyRecords (capabilities : List String) (records : List Record) :
    EStateM Error SessionState Unit :=
  forEach (fun i record => do
    let _ ← SessionState.onApplier (Applier.apply S F i capabilities record none)
    pure ()) 0 records

def handleBatch (batch : RepairBatch) : EStateM Error SessionState Unit := do
  let s ← get
  let expected := s.watermark
  let delivery ← attempt (batch.delivery S expected s.node.repairLimits)
  if delivery = .duplicate then
    writeAck S F expected
  else do
    applyRecords S F s.session.capabilities batch.records
    SessionState.onBook (RepairCoordinator.acknowledge S F (← get).node.journal
      s.session.peerID batch.to_)
    writeAck S F batch.to_

def handleSnapshot (snapshot : RepairSnapshot) : EStateM Error SessionState Unit := do
  let s ← get
  let expected := s.watermark
  if snapshot.watermark.compare expected ≤ 0 then
    writeAck S F expected
  else do
    SessionState.onApplier (Applier.applySnapshot S F s.session.capabilities
      ⟨snapshot.watermark, snapshot.records⟩ s.session.checkpointPath)
    SessionState.onBook (RepairCoordinator.acknowledge S F (← get).node.journal
      s.session.peerID snapshot.watermark)
    writeAck S F snapshot.watermark

/-- Act on a decoded frame. -/
def handleFrame (frame : RepairFrame) : EStateM Error SessionState Unit :=
  match frame.ack, frame.batch, frame.snapshot with
  | some ack, _, _ => handleAck S F ack
  | none, some batch, _ => handleBatch S F batch
  | none, none, some snapshot => handleSnapshot S F snapshot
  | none, none, none => throw .repairMalformed

/-- Decode and act on one incoming frame. -/
def handle (payload : Bytes) : EStateM Error SessionState Unit := do
  ctxErr (F .entry) 0
  requireCapability
  let s ← get
  let frame ← attempt (decodeRepairFrameForPeer S payload s.session.capabilities
    s.node.repairLimits)
  handleFrame S F frame

end RepairSession

/-! ## Frames written -/

/-- The payload of an acknowledgement. -/
def ackPayload (watermark : Version) : Bytes :=
  S.ack.marshal ⟨repairAckMessageType, watermark⟩

namespace RepairSession

variable {S : Stdlib}

/-- The frame is within the bound of the transport. -/
def FrameFits (s : SessionState) (payload : Bytes) : Prop :=
  payload.length ≤ orDefault s.session.maxFrameBytes defaultMaxFrameBytes

instance (s : SessionState) (payload : Bytes) : Decidable (FrameFits s payload) :=
  inferInstanceAs (Decidable (_ ≤ _))

/-- The acknowledgement can be encoded and written. -/
def AckFits (S : Stdlib) (s : SessionState) (watermark : Version) : Prop :=
  (ackPayload S watermark).length ≤ s.node.repairLimits.normalized.maxFrameBytes ∧
    FrameFits s (ackPayload S watermark)

instance (s : SessionState) (watermark : Version) : Decidable (AckFits S s watermark) :=
  inferInstanceAs (Decidable (_ ∧ _))

/-- The call that writes the frame is not performed. -/
def FrameRefused (F : Faults) : Prop :=
  F .frame (.ctxErr 0) ≠ .proceed ∨ F .frame .writeFrame ≠ .proceed

theorem not_frameRefused : ¬ FrameRefused Faults.none := by
  rintro (h | h) <;> exact h rfl

theorem writeFrame_cases (F : Faults) (payload : Bytes) (s : SessionState) :
    (∃ e s', writeFrame (F .frame) payload s.session.maxFrameBytes s = .error e s' ∧
        (s' = s ∨ s' = s.wrote payload) ∧ (¬ FrameFits s payload ∨ FrameRefused F)) ∨
      (writeFrame (F .frame) payload s.session.maxFrameBytes s =
        .ok () (s.wrote payload) ∧ FrameFits s payload) := by
  have hstored : ∀ n : Nat, (if n = 0 then s else s.wrote payload) = s ∨
      (if n = 0 then s else s.wrote payload) = s.wrote payload := by
    intro n
    split
    · exact .inl rfl
    · exact .inr rfl
  unfold writeFrame
  by_cases hsize : payload.length > orDefault s.session.maxFrameBytes defaultMaxFrameBytes
  · refine .inl ⟨_, s, run_bind_error (run_raiseIf_error hsize), .inl rfl, .inl ?_⟩
    exact not_le.mpr hsize
  rw [run_bind_ok (run_raiseIf hsize)]
  cases hcall : F .frame .writeFrame with
  | proceed => exact .inr ⟨rfl, not_lt.mp hsize⟩
  | fail n =>
    refine .inl ⟨.io .writeFrame, _, rfl, hstored n, .inr (.inr ?_)⟩
    rw [hcall]
    exact nofun
  | crash n =>
    refine .inl ⟨.crash, _, rfl, hstored n, .inr (.inr ?_)⟩
    rw [hcall]
    exact nofun

/-- Writing an acknowledgement changes nothing but the outbox. -/
theorem writeAck_cases (F : Faults) (watermark : Version) (s : SessionState) :
    (∃ e s', writeAck S F watermark s = .error e s' ∧
        (s' = s ∨ s' = s.wrote (ackPayload S watermark)) ∧
        (¬ AckFits S s watermark ∨ FrameRefused F)) ∨
      (writeAck S F watermark s = .ok () (s.wrote (ackPayload S watermark)) ∧
        AckFits S s watermark) := by
  unfold writeAck
  rcases ctxErr_cases (F .frame) 0 s with ⟨hctx, e, he⟩ | ⟨_, hx⟩
  · exact .inl ⟨e, s, run_bind_error he, .inl rfl, .inr (.inl hctx)⟩
  rw [run_bind_ok hx, run_bind_get]
  cases hencode : encodeRepairAck S ⟨repairAckMessageType, watermark⟩
      s.node.repairLimits with
  | error e =>
    refine .inl ⟨e, s, run_bind_error (run_attempt_error rfl), .inl rfl, .inl ?_⟩
    intro hfits
    rw [encodeRepairAck_eq_ok.mpr ⟨rfl, hfits.1⟩] at hencode
    cases hencode
  | ok payload =>
    obtain ⟨rfl, hlen⟩ := encodeRepairAck_eq_ok.mp hencode
    rw [run_bind_ok (run_attempt rfl)]
    rcases writeFrame_cases F (ackPayload S watermark) s with ⟨e, s', hrun, hs', hwhy⟩ |
      ⟨hrun, hfits⟩
    · refine .inl ⟨e, s', hrun, hs', hwhy.imp ?_ id⟩
      intro hno hack
      exact hno hack.2
    · exact .inr ⟨hrun, hlen, hfits⟩

/-- Writing an acknowledgement keeps what the frame itself does not break. -/
theorem writeAck_triple {F : Faults} {watermark : Version} {P : SessionState → Prop}
    (hP : ∀ s, P s → P (s.wrote (ackPayload S watermark))) :
    Triple P (writeAck S F watermark) (fun _ s => P s) (fun _ s => P s) := by
  intro s hs
  rcases writeAck_cases F watermark s with ⟨e, s', hrun, rfl | rfl, _⟩ | ⟨hrun, _⟩
  · rw [hrun]
    exact hs
  · rw [hrun]
    exact hP s hs
  · rw [hrun]
    exact hP s hs

/-! ## Frames received -/

/-- Handling refuses the frame with nothing changed, or acts on what it decodes
to. -/
theorem handle_cases (F : Faults) (payload : Bytes) (s : SessionState) :
    (∃ e, handle S F payload s = .error e s ∧
        ¬ (F .entry (.ctxErr 0) = .proceed ∧
          hasLifecycleCapability s.session.capabilities = true ∧
          ∃ frame, decodeRepairFrame S payload s.node.repairLimits = .ok frame)) ∨
      (∃ frame, decodeRepairFrame S payload s.node.repairLimits = .ok frame ∧
        hasLifecycleCapability s.session.capabilities = true ∧
        handle S F payload s = handleFrame S F frame s) := by
  unfold handle
  rcases ctxErr_cases (F .entry) 0 s with ⟨hctx, e, he⟩ | ⟨_, hx⟩
  · exact .inl ⟨e, run_bind_error he, fun h => hctx h.1⟩
  rw [run_bind_ok hx]
  by_cases hcap : hasLifecycleCapability s.session.capabilities = false
  · refine .inl ⟨_, run_bind_error (run_raiseIf_error hcap), ?_⟩
    intro h
    rw [h.2.1] at hcap
    cases hcap
  have hrequire : requireCapability s = .ok () s := run_raiseIf hcap
  have hdecode : decodeRepairFrameForPeer S payload s.session.capabilities
      s.node.repairLimits = decodeRepairFrame S payload s.node.repairLimits := if_neg hcap
  rw [run_bind_ok hrequire, run_bind_get, hdecode]
  cases hframe : decodeRepairFrame S payload s.node.repairLimits with
  | error e =>
    refine .inl ⟨e, run_bind_error (run_attempt_error rfl), ?_⟩
    rintro ⟨_, _, frame, hok⟩
    cases hok
  | ok frame =>
    exact .inr ⟨frame, rfl, Bool.not_eq_false _ ▸ hcap, run_bind_ok (run_attempt rfl)⟩

end RepairSession

end StreamHive.Lifecycle
