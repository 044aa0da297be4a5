import StreamHive.Lifecycle.RepairRun

/-!
# The steps of a repair session

What one step of a session at work can do, said once: `Advanced` lists the moves of
`Run`, `ReaderMoves` those of the reader while it serves acknowledgements, and
`Kept` and `Served` say what each of them leaves alone.  The properties of whole
runs are proved from these.

## Main results

* `RunState.advance_cases`, `RunState.advance_frame` — a step of `Run`;
* `RunState.handle_cases`, `RunState.receive_ack` — a step of the reader;
* `RunState.step_cases` — any action of the session.
-/

namespace StreamHive.Lifecycle

open Verified ByteString Effect Log

/-! ## What a step of `Run` can do -/

/-- The phases in front of the preflight's reads. -/
def RunPhase.Early : RunPhase → Prop
  | .start | .greeting _ | .greeted | .asking | .parked | .before | .listing => True
  | _ => False

/-- The phase and the history after a step of `Run`, of its timer, or of the peer that
acknowledges its blobs. -/
inductive Advanced (S : Stdlib) (r : RunState) : RunPhase → RunHistory → Prop
  | stay : Advanced S r r.run r.past
  | fail (e : Error) : Advanced S r (.failed e) r.past
  | early {phase : RunPhase} (h : r.run.Early) (h' : phase.Early) : Advanced S r phase r.past
  | skip (h : r.run = .before) (hraw : r.raw.enabled = false) : Advanced S r .next r.past
  | list (h : r.run = .listing) : Advanced S r (.marking r.conn.node.journal.records) r.past
  | mark {records : List Record} (h : r.run = .marking records) :
      Advanced S r (.bounding records r.conn.watermark)
        { r.past with preflight := r.past.preflight ++ [r.conn.watermark] }
  | behind {records : List Record} {watermark : Version}
      (h : r.run = .bounding records watermark)
      (hfloor : watermark < r.conn.node.journal.floor) :
      Advanced S r (.collecting records watermark) r.past
  | select {records : List Record} {watermark : Version}
      (h : r.run = .bounding records watermark)
      (hfloor : r.conn.node.journal.floor ≤ watermark) :
      Advanced S r (.syncing (selectRaw watermark [] records))
        { r.past with selected := selectRaw watermark [] records }
  | collect {records : List Record} {watermark : Version}
      (h : r.run = .collecting records watermark) :
      Advanced S r (.syncing (selectRaw watermark [] (records ++ r.checkpointRecords)))
        { r.past with selected := selectRaw watermark [] (records ++ r.checkpointRecords) }
  | load {record : Record} {rest : List Record} (payload : Bytes)
      (h : r.run = .syncing (record :: rest)) :
      Advanced S r (.sending payload record.blobKey 0 rest) r.past
  | send {payload key : Bytes} {attempt : Nat} {rest : List Record}
      (h : r.run = .sending payload key attempt rest) :
      Advanced S r (.confirming payload key attempt false rest) r.past
  | confirmed {payload key : Bytes} {attempt : Nat} {rest : List Record}
      (h : r.run = .confirming payload key attempt true rest) :
      Advanced S r (.syncing rest) r.past
  | blobAcked {payload key : Bytes} {attempt : Nat} {rest : List Record}
      (h : r.run = .confirming payload key attempt false rest) :
      Advanced S r (.confirming payload key attempt true rest)
        { r.past with confirmed := r.past.confirmed ++ [key] }
  | resend {payload key : Bytes} {attempt : Nat} {rest : List Record}
      (h : r.run = .confirming payload key attempt false rest) :
      Advanced S r (.sending payload key (attempt + 1) rest) r.past
  | synced (h : r.run = .syncing []) : Advanced S r .next r.past
  | ready (h : r.run = .next) : Advanced S r .reading r.past
  | read (h : r.run = .reading) :
      Advanced S r (.planning r.conn.watermark)
        { r.past with planned := r.past.planned ++ [r.conn.watermark] }
  | plan {from_ : Version} {plan : RepairPlan} (h : r.run = .planning from_)
      (hplan : Planned S r.conn.node.repairLimits r.conn.node.journal from_
        r.conn.session.snapshot plan) :
      Advanced S r (.writing plan) r.past
  | write {plan : RepairPlan} (h : r.run = .writing plan) :
      Advanced S r plan.written { r.past with sent := r.past.sent ++ [plan] }
  | writeFails {plan : RepairPlan} (e : Error) (h : r.run = .writing plan) :
      Advanced S r (.failed e) { r.past with sent := r.past.sent ++ [plan] }
  | settle {plan : RepairPlan} (h : r.run = .awaiting plan)
      (hdone : plan.to_ ≤ r.conn.watermark) : Advanced S r plan.settled r.past
  | block {plan : RepairPlan} (h : r.run = .awaiting plan) :
      Advanced S r (.blocked plan) r.past
  | wake {plan : RepairPlan} (h : r.run = .blocked plan) :
      Advanced S r (.awaiting plan) r.past

namespace RunState

variable {S : Stdlib} {F : Faults} {r : RunState}

/-- A call ends in the phase of its result, or in that of its error. -/
theorem call_cases {α : Type} (x : EStateM Error SessionState α) (next : α → RunPhase) :
    (r.call x next).past = r.past ∧
      ((∃ a, (r.call x next).run = next a) ∨ ∃ e, (r.call x next).run = .failed e) := by
  unfold call
  cases x r.conn with
  | ok a s => exact ⟨rfl, .inl ⟨a, rfl⟩⟩
  | error e s => exact ⟨rfl, .inr ⟨e, rfl⟩⟩

theorem advanced_call {α : Type} {x : EStateM Error SessionState α} {next : α → RunPhase}
    (h : ∀ a, Advanced S r (next a) r.past) :
    Advanced S r (r.call x next).run (r.call x next).past := by
  obtain ⟨hpast, ⟨a, hrun⟩ | ⟨e, hrun⟩⟩ := @call_cases r α x next
  · rw [hpast, hrun]
    exact h a
  · rw [hpast, hrun]
    exact .fail e

theorem advanced_await {signal : Bool} {woken : RunState}
    (h : signal = true → Advanced S r woken.run woken.past) :
    Advanced S r (r.await F signal woken).run (r.await F signal woken).past := by
  unfold await
  cases ctxCheck (F .entry) 0 with
  | error e => exact .fail e
  | ok _ =>
    cases signal with
    | true => exact h rfl
    | false => exact .stay

variable (S) (F)

/-- Everything that a step of `Run` can do. -/
theorem advance_cases (r : RunState) :
    Advanced S r (r.advance S F).run (r.advance S F).past := by
  cases hrun : r.run with
  | start | greeted | asking =>
    rw [advance, hrun]
    refine .early (by rw [hrun]; trivial) ?_
    show RunPhase.Early (if _ then _ else _)
    split <;> trivial
  | greeting watermark =>
    rw [advance, hrun]
    exact advanced_call fun _ => .early (by rw [hrun]; trivial) trivial
  | parked =>
    rw [advance, hrun]
    exact advanced_await fun _ => .early (by rw [hrun]; trivial) trivial
  | before =>
    rw [advance, hrun]
    cases hraw : r.raw.enabled with
    | true => exact .early (by rw [hrun]; trivial) trivial
    | false => exact .skip hrun hraw
  | listing =>
    rw [advance, hrun]
    cases hlist : r.conn.node.journal.listRecords (F .journal) with
    | error e => exact .fail e
    | ok records =>
      rw [Journal.listRecords_ok hlist]
      exact .list hrun
  | marking records =>
    rw [advance, hrun]
    exact .mark hrun
  | bounding records watermark =>
    rw [advance, hrun]
    simp only [Version.compare_lt_zero]
    by_cases hfloor : watermark < r.conn.node.journal.floor
    · rw [if_pos hfloor]
      exact .behind hrun hfloor
    · rw [if_neg hfloor]
      exact .select hrun (not_lt.mp hfloor)
  | collecting records watermark =>
    rw [advance, hrun]
    exact .collect hrun
  | syncing rest =>
    cases rest with
    | nil =>
      rw [advance, hrun]
      exact .synced hrun
    | cons record rest =>
      rw [advance, hrun]
      exact advanced_call fun payload => .load payload hrun
  | sending payload key attempt rest =>
    rw [advance, hrun]
    dsimp only
    cases writeFrame (F .frame) payload r.raw.maxFrameBytes r.conn with
    | ok u s => exact .send hrun
    | error e s => exact .fail _
  | confirming payload key attempt acked rest =>
    rw [advance, hrun]
    cases acked with
    | true => exact .confirmed hrun
    | false => exact advanced_await (by simp)
  | next =>
    rw [advance, hrun]
    exact advanced_call fun _ => .ready hrun
  | reading =>
    rw [advance, hrun]
    exact .read hrun
  | planning from_ =>
    rw [advance, hrun]
    dsimp only
    cases hplan : planRepair S (F .coordinator) r.conn.node.journal from_
        r.conn.session.snapshot r.conn.node.repairLimits with
    | error e => exact .fail e
    | ok plan =>
      dsimp only
      split
      · exact .fail _
      · exact .plan hrun (planRepair_ok hplan)
  | writing plan =>
    rw [advance, hrun]
    obtain ⟨_, ⟨_, hphase⟩ | ⟨e, hphase⟩⟩ := @call_cases r Unit
      (writeFrame (F .frame) plan.payload r.conn.session.maxFrameBytes)
      (fun _ => plan.written)
    · show Advanced S r (r.call _ _).run _
      rw [hphase]
      exact .write hrun
    · show Advanced S r (r.call _ _).run _
      rw [hphase]
      exact .writeFails e hrun
  | awaiting plan =>
    rw [advance, hrun]
    simp only [Version.compare_nonneg]
    by_cases hdone : plan.to_ ≤ r.conn.watermark
    · rw [if_pos hdone]
      exact .settle hrun hdone
    · rw [if_neg hdone]
      exact .block hrun
  | blocked plan =>
    rw [advance, hrun]
    exact advanced_await fun _ => .wake hrun
  | returned | failed e =>
    rw [advance, hrun]
    exact .stay

/-! ## What a step of `Run` leaves alone -/

/-- The call may write a frame and changes nothing else. -/
def OnlyWrites {α : Type} (x : EStateM Error SessionState α) : Prop :=
  ∀ s, (finalState (x s)).node = s.node ∧ (finalState (x s)).session = s.session

theorem onlyWrites_writeFrame (o : Oracle) (payload : Bytes) (maxPayload : Int) :
    OnlyWrites (writeFrame o payload maxPayload) := by
  intro s
  unfold writeFrame
  by_cases hsize : payload.length > orDefault maxPayload Transport.defaultMaxFrameBytes
  · rw [run_bind_error (run_raiseIf_error hsize)]
    exact ⟨rfl, rfl⟩
  rw [run_bind_ok (run_raiseIf hsize)]
  have hstored : ∀ n : Nat, (if n = 0 then s else s.wrote payload).node = s.node ∧
      (if n = 0 then s else s.wrote payload).session = s.session := by
    intro n
    split <;> exact ⟨rfl, rfl⟩
  cases o .writeFrame with
  | proceed => exact ⟨rfl, rfl⟩
  | fail n | crash n => exact hstored n

theorem onlyWrites_writeAck (watermark : Version) :
    OnlyWrites (RepairSession.writeAck S F watermark) := by
  intro s
  rcases RepairSession.writeAck_cases (S := S) F watermark s with
    ⟨e, s', hrun, rfl | rfl, _⟩ | ⟨hrun, _⟩
  all_goals
    rw [hrun]
    exact ⟨rfl, rfl⟩

/-- A call that changes nothing at all. -/
theorem onlyWrites_of_triple {α : Type} {x : EStateM Error SessionState α}
    (h : ∀ s₀, Preserves (fun s => s = s₀) x) :
    OnlyWrites x := by
  intro s
  rw [(h s).finalState rfl]
  exact ⟨rfl, rfl⟩

theorem loadRaw_triple (raw : RawSync) (record : Record) (s₀ : SessionState) :
    Preserves (fun s => s = s₀) (loadRaw S F raw record) := by
  unfold loadRaw
  refine Triple.get_bind fun s hs => ?_
  rw [hs]
  cases s₀.node.blobs with
  | none => exact Triple.throw fun _ h => h
  | some blobs =>
    refine Triple.bind (R := fun _ s => s = s₀) ?_ fun data => ?_
    · unfold getBlob
      refine Triple.bind (syscall_triple _ _ _) fun _ => ?_
      cases blobs record.blobKey with
      | none => exact Triple.throw fun _ h => h
      | some data => exact Triple.pure fun _ h => h
    refine Triple.bind (Triple.attempt fun _ _ h _ => h) fun _ => ?_
    exact Triple.weaken (Triple.attempt fun _ _ h _ => h) (fun _ h => h.1)
      (fun _ _ h => h.1) fun _ _ h => h

theorem checkNext_triple (s₀ : SessionState) :
    Preserves (fun s => s = s₀) (checkNext S F) := by
  unfold checkNext
  refine Triple.bind (ctxErr_triple _ _ _) fun _ => ?_
  refine Triple.bind (R := fun _ s => s = s₀) ?_ fun _ => ?_
  · unfold RepairSession.requireCapability
    refine Triple.get_bind fun s hs => ?_
    exact Triple.weaken (Triple.raiseIf fun _ h _ => h) (fun t h => h.trans hs)
      (fun _ _ h => h.1) fun _ _ h => h
  refine Triple.bind (Triple.attempt fun _ _ h _ => h) fun _ => ?_
  refine Triple.get_bind fun s hs => ?_
  exact Triple.weaken (Triple.attempt fun _ _ h _ => h) (fun t h => h.trans hs.1)
    (fun _ _ h => h.1) fun _ _ h => h

/-- What belongs to the node, to the session and to the reader is as before. -/
structure Kept (r r' : RunState) : Prop where
  node : r'.conn.node = r.conn.node
  session : r'.conn.session = r.conn.session
  checkpoint : r'.checkpoint = r.checkpoint
  raw : r'.raw = r.raw
  reader : r'.reader = r.reader
  recorded : r'.past.recorded = r.past.recorded
  acked : r'.past.acked = r.past.acked

theorem Kept.rfl {r : RunState} : Kept r r :=
  ⟨.refl _, .refl _, .refl _, .refl _, .refl _, .refl _, .refl _⟩

theorem kept_goto (r : RunState) (phase : RunPhase) : Kept r (r.goto phase) :=
  ⟨rfl, rfl, rfl, rfl, rfl, rfl, rfl⟩

theorem kept_call {α : Type} {x : EStateM Error SessionState α} (hx : OnlyWrites x)
    (r : RunState) (next : α → RunPhase) : Kept r (r.call x next) := by
  obtain ⟨hnode, hsession⟩ := hx r.conn
  unfold call
  cases hrun : x r.conn with
  | ok a s | error e s =>
    rw [hrun] at hnode hsession
    exact ⟨hnode, hsession, rfl, rfl, rfl, rfl, rfl⟩

variable {F}

theorem kept_await {signal : Bool} {woken : RunState} (h : Kept r woken) :
    Kept r (r.await F signal woken) := by
  unfold await
  cases ctxCheck (F .entry) 0 with
  | error e => exact kept_goto r _
  | ok _ =>
    cases signal with
    | true => exact h
    | false => exact Kept.rfl

/-- A step of `Run` leaves the node, the session and the reader alone. -/
theorem advance_frame (F : Faults) (r : RunState) : Kept r (r.advance S F) := by
  cases hrun : r.run with
  | start | greeted | asking | before | awaiting plan =>
    rw [advance, hrun]
    exact kept_goto r _
  | greeting watermark =>
    rw [advance, hrun]
    exact kept_call (onlyWrites_writeAck S F watermark) r _
  | parked | blocked plan =>
    rw [advance, hrun]
    exact kept_await ⟨rfl, rfl, rfl, rfl, rfl, rfl, rfl⟩
  | listing =>
    rw [advance, hrun]
    dsimp only
    split <;> exact kept_goto r _
  | marking records | collecting records watermark | reading =>
    rw [advance, hrun]
    exact ⟨rfl, rfl, rfl, rfl, rfl, rfl, rfl⟩
  | bounding records watermark =>
    rw [advance, hrun]
    dsimp only
    split
    · exact kept_goto r _
    · exact ⟨rfl, rfl, rfl, rfl, rfl, rfl, rfl⟩
  | syncing rest =>
    cases rest with
    | nil =>
      rw [advance, hrun]
      exact kept_goto r _
    | cons record rest =>
      rw [advance, hrun]
      exact kept_call (onlyWrites_of_triple (loadRaw_triple S F r.raw record)) r _
  | sending payload key attempt rest =>
    obtain ⟨hnode, hsession⟩ := onlyWrites_writeFrame (F .frame) payload
      r.raw.maxFrameBytes r.conn
    rw [advance, hrun]
    dsimp only
    cases hwrite : writeFrame (F .frame) payload r.raw.maxFrameBytes r.conn with
    | ok u s | error e s =>
      rw [hwrite] at hnode hsession
      exact ⟨hnode, hsession, rfl, rfl, rfl, rfl, rfl⟩
  | confirming payload key attempt acked rest =>
    rw [advance, hrun]
    dsimp only
    split
    · exact kept_goto r _
    · exact kept_await Kept.rfl
  | next =>
    rw [advance, hrun]
    exact kept_call (onlyWrites_of_triple (checkNext_triple S F)) r _
  | planning from_ =>
    rw [advance, hrun]
    dsimp only
    split
    · exact kept_goto r _
    · split <;> exact kept_goto r _
  | writing plan =>
    rw [advance, hrun]
    have h := kept_call (onlyWrites_writeFrame (F .frame) plan.payload
      r.conn.session.maxFrameBytes) r fun _ => plan.written
    exact ⟨h.node, h.session, h.checkpoint, h.raw, h.reader, rfl, rfl⟩
  | returned | failed e =>
    rw [advance, hrun]
    exact Kept.rfl

theorem blobAck_cases (r : RunState) (key : Bytes) :
    Kept r (r.blobAck key) ∧ Advanced S r (r.blobAck key).run (r.blobAck key).past := by
  unfold blobAck
  split
  case h_1 payload expected attempt rest hrun =>
      split
      case isTrue heq =>
          rw [heq]
          exact ⟨⟨rfl, rfl, rfl, rfl, rfl, rfl, rfl⟩, .blobAcked hrun⟩
      case isFalse => exact ⟨Kept.rfl, .stay⟩
  case h_2 => exact ⟨Kept.rfl, .stay⟩

theorem expire_cases (F : Faults) (r : RunState) :
    Kept r (r.expire F) ∧ Advanced S r (r.expire F).run (r.expire F).past := by
  unfold expire
  split
  case h_1 payload key attempt acked rest hrun =>
      cases acked with
      | true => exact ⟨kept_goto r _, .confirmed hrun⟩
      | false =>
        simp only [Bool.false_eq_true, if_false]
        split
        · exact ⟨kept_goto r _, .fail _⟩
        · cases ctxCheck (F .entry) 1 with
          | ok _ => exact ⟨kept_goto r _, .resend hrun⟩
          | error e => exact ⟨kept_goto r _, .fail e⟩
  case h_2 => exact ⟨Kept.rfl, .stay⟩

/-! ## What a step of the reader can do -/

/-- What the reader leaves alone while it serves acknowledgements. -/
structure Served (r r' : RunState) : Prop where
  run : r'.run = r.run
  journal : r'.conn.node.journal = r.conn.node.journal
  limits : r'.conn.node.repairLimits = r.conn.node.repairLimits
  session : r'.conn.session =
    { r.conn.session with helloReceived := r'.conn.session.helloReceived }
  checkpoint : r'.checkpoint = r.checkpoint
  raw : r'.raw = r.raw
  past : r'.past = { r.past with recorded := r'.past.recorded, acked := r'.past.acked }

end RunState

/-- The report that the reader is about to record. -/
def ReaderPhase.report? : ReaderPhase → Option Version
  | .reported v | .reconciling v | .recording v => some v
  | _ => none

/-- The reader's phase, the mark of the session, the watermark of the peer and the
reader's part of the history after a step of the reader that serves an
acknowledgement; `Brings` says which version a new frame brings. -/
inductive ReaderMoves (Brings : Version → Prop) (r : RunState) :
    ReaderPhase → Bool → Version → Bool → List Version → Prop
  | stay : ReaderMoves Brings r r.reader r.conn.session.helloReceived r.conn.watermark
      r.past.recorded r.past.acked
  | fail (e : Error) : ReaderMoves Brings r (.failed e) r.conn.session.helloReceived
      r.conn.watermark r.past.recorded r.past.acked
  | frame {v : Version} (h : r.reader = .idle) (hv : Brings v)
      (hpeer : r.conn.session.reconcilePeer = true) :
      ReaderMoves Brings r (.accepting v) r.conn.session.helloReceived r.conn.watermark
        r.past.recorded r.past.acked
  | ack {v : Version} (h : r.reader = .idle) (hv : Brings v)
      (hpeer : r.conn.session.reconcilePeer = false) :
      ReaderMoves Brings r (.advancing v) r.conn.session.helloReceived r.conn.watermark
        r.past.recorded r.past.acked
  | later {v : Version} (h : r.reader = .accepting v)
      (hhello : r.conn.session.helloReceived = true) :
      ReaderMoves Brings r (.advancing v) true r.conn.watermark r.past.recorded r.past.acked
  | first {v : Version} (h : r.reader = .accepting v)
      (hhello : r.conn.session.helloReceived = false) :
      ReaderMoves Brings r (.reported v) true r.conn.watermark r.past.recorded r.past.acked
  | empty {v : Version} (h : r.reader = .reported v)
      (hlast : r.conn.node.journal.lastVersion.IsZero) :
      ReaderMoves Brings r .idle r.conn.session.helloReceived r.conn.watermark r.past.recorded
        r.past.acked
  | report {v : Version} (h : r.reader = .reported v) :
      ReaderMoves Brings r (.reconciling v) r.conn.session.helloReceived r.conn.watermark
        r.past.recorded r.past.acked
  | allowReport {v : Version} (h : r.reader = .reconciling v)
      (hlast : v ≤ r.conn.node.journal.lastVersion) :
      ReaderMoves Brings r (.recording v) r.conn.session.helloReceived r.conn.watermark
        r.past.recorded r.past.acked
  | record {v : Version} (h : r.reader = .recording v) :
      ReaderMoves Brings r .idle r.conn.session.helloReceived v true r.past.acked
  | allowAck {v : Version} (h : r.reader = .advancing v)
      (hlast : v ≤ r.conn.node.journal.lastVersion) :
      ReaderMoves Brings r (.acknowledging v) r.conn.session.helloReceived r.conn.watermark
        r.past.recorded r.past.acked
  | acknowledge {v : Version} (h : r.reader = .acknowledging v)
      (hforward : v.IsZero ∨ r.conn.watermark ≤ v) :
      ReaderMoves Brings r .signalling r.conn.session.helloReceived
        (max r.conn.watermark v) r.past.recorded (r.past.acked ++ [v])
  | signal (h : r.reader = .signalling) :
      ReaderMoves Brings r .idle r.conn.session.helloReceived r.conn.watermark r.past.recorded
        r.past.acked

/-- What the reader has recorded stays recorded. -/
theorem ReaderMoves.grows {Brings : Version → Prop} {r : RunState} {reader : ReaderPhase}
    {hello recorded : Bool} {w : Version} {acked : List Version}
    (h : ReaderMoves Brings r reader hello w recorded acked) :
    (recorded = false → r.past.recorded = false) ∧ r.past.acked <+: acked := by
  cases h with
  | record => exact ⟨nofun, List.prefix_rfl⟩
  | acknowledge => exact ⟨id, List.prefix_append _ _⟩
  | _ => exact ⟨id, List.prefix_rfl⟩

namespace RunState

variable {S : Stdlib} {F : Faults} {r : RunState}

/-- The reader has moved from one state to another. -/
def Moved (Brings : Version → Prop) (r r' : RunState) : Prop :=
  Served r r' ∧ ReaderMoves Brings r r'.reader r'.conn.session.helloReceived r'.conn.watermark
    r'.past.recorded r'.past.acked

/-- Everything that a step of the reader on an acknowledgement can do. -/
theorem handle_cases (S : Stdlib) (F : Faults) (r : RunState) (Brings : Version → Prop) :
    Moved Brings r (r.handle S F) := by
  cases hreader : r.reader with
  | idle | failed e =>
    rw [handle, hreader]
    exact ⟨⟨rfl, rfl, rfl, rfl, rfl, rfl, rfl⟩, .stay⟩
  | accepting v =>
    rw [handle, hreader]
    dsimp only
    unfold accept
    split
    case isTrue hhello =>
        refine ⟨⟨rfl, rfl, rfl, rfl, rfl, rfl, rfl⟩, ?_⟩
        have h : ReaderMoves Brings r (.advancing v) true r.conn.watermark r.past.recorded
            r.past.acked := .later hreader hhello
        rw [← hhello] at h
        exact h
    case isFalse hhello =>
        exact ⟨⟨rfl, rfl, rfl, rfl, rfl, rfl, rfl⟩, .first hreader (by simpa using hhello)⟩
  | reported v =>
    rw [handle, hreader]
    dsimp only
    split
    case isTrue hlast =>
        exact ⟨⟨rfl, rfl, rfl, rfl, rfl, rfl, rfl⟩, .empty hreader hlast⟩
    case isFalse => exact ⟨⟨rfl, rfl, rfl, rfl, rfl, rfl, rfl⟩, .report hreader⟩
  | reconciling v =>
    rw [handle, hreader]
    dsimp only
    unfold serve
    rcases checkBook_cases S F r.conn v with ⟨e, he, _⟩ | ⟨hok, hlast, _⟩
    · rw [he]
      exact ⟨⟨rfl, rfl, rfl, rfl, rfl, rfl, rfl⟩, .fail e⟩
    · rw [hok]
      exact ⟨⟨rfl, rfl, rfl, rfl, rfl, rfl, rfl⟩, .allowReport hreader hlast⟩
  | recording v =>
    rw [handle, hreader]
    dsimp only
    unfold serve
    rcases WatermarkBook.reconcile_spec (S := S) F r.conn.session.peerID v
        ⟨r.conn.node.fs, r.conn.node.watermarks⟩ with ⟨e, fs', he, _⟩ | ⟨d, hok, _, hsaved⟩
    · rw [run_onBook_error he]
      exact ⟨⟨rfl, rfl, rfl, rfl, rfl, rfl, rfl⟩, .fail e⟩
    · rw [run_onBook hok]
      refine ⟨⟨rfl, rfl, rfl, rfl, rfl, rfl, rfl⟩, ?_⟩
      have hmark : d.obj.watermark r.conn.session.peerID = v := by
        rw [hsaved.obj]
        exact WatermarkBook.watermark_reconciled
      show ReaderMoves Brings r .idle _ (d.obj.watermark r.conn.session.peerID) true _
      rw [hmark]
      exact .record hreader
  | advancing v =>
    rw [handle, hreader]
    dsimp only
    unfold serve
    rcases checkBook_cases S F r.conn v with ⟨e, he, _⟩ | ⟨hok, hlast, _⟩
    · rw [he]
      exact ⟨⟨rfl, rfl, rfl, rfl, rfl, rfl, rfl⟩, .fail e⟩
    · rw [hok]
      exact ⟨⟨rfl, rfl, rfl, rfl, rfl, rfl, rfl⟩, .allowAck hreader hlast⟩
  | acknowledging v =>
    rw [handle, hreader]
    dsimp only
    unfold serve
    rcases WatermarkBook.acknowledge_spec (S := S) F r.conn.session.peerID v
        ⟨r.conn.node.fs, r.conn.node.watermarks⟩ with ⟨e, fs', he, _⟩ | ⟨d, hok, hacc, hsaved⟩
    · rw [run_onBook_error he]
      exact ⟨⟨rfl, rfl, rfl, rfl, rfl, rfl, rfl⟩, .fail e⟩
    · rw [run_onBook hok]
      refine ⟨⟨rfl, rfl, rfl, rfl, rfl, rfl, rfl⟩, ?_⟩
      have hmark : d.obj.watermark r.conn.session.peerID = max r.conn.watermark v := by
        rw [hsaved.obj]
        exact WatermarkBook.watermark_acknowledged hacc
      show ReaderMoves Brings r .signalling _ (d.obj.watermark r.conn.session.peerID) _ _
      rw [hmark]
      exact .acknowledge hreader hacc.forward
  | signalling =>
    rw [handle, hreader]
    exact ⟨⟨rfl, rfl, rfl, rfl, rfl, rfl, rfl⟩, .signal hreader⟩

/-- Receiving an acknowledgement only moves the reader. -/
theorem receive_ack (hS : S.Lawful) (F : Faults) (v : Version) (r : RunState)
    {Brings : Version → Prop} (hv : Brings v) :
    Moved Brings r (r.receive S F (ackPayload S v)) := by
  have hstay : Moved Brings r r := ⟨⟨rfl, rfl, rfl, rfl, rfl, rfl, rfl⟩, .stay⟩
  have hdecode : (∃ e, decode S F (ackPayload S v) r.conn = .error e r.conn) ∨
      decode S F (ackPayload S v) r.conn =
        .ok (RepairFrame.ofAck ⟨repairAckMessageType, v⟩) r.conn := by
    unfold decode
    rcases ctxErr_cases (F .entry) 0 r.conn with ⟨_, e, he⟩ | ⟨_, hx⟩
    · exact .inl ⟨e, run_bind_error he⟩
    rw [run_bind_ok hx]
    by_cases hcap : hasLifecycleCapability r.conn.session.capabilities = false
    · exact .inl ⟨_, run_bind_error (run_raiseIf_error hcap)⟩
    have hrequire : RepairSession.requireCapability r.conn = .ok () r.conn := run_raiseIf hcap
    have hframe : decodeRepairFrameForPeer S (ackPayload S v) r.conn.session.capabilities
        r.conn.node.repairLimits = decodeRepairFrame S (ackPayload S v)
          r.conn.node.repairLimits := if_neg hcap
    rw [run_bind_ok hrequire, run_bind_get, hframe]
    cases hdec : decodeRepairFrame S (ackPayload S v) r.conn.node.repairLimits with
    | error e => exact .inl ⟨e, rfl⟩
    | ok frame =>
      obtain ⟨_, rfl⟩ := (decodeRepairFrame_ack hS).mp hdec
      exact .inr rfl
  unfold receive
  split
  case h_2 => exact hstay
  case h_1 hidle =>
      rcases hdecode with ⟨e, he⟩ | hok
      · rw [he]
        exact ⟨⟨rfl, rfl, rfl, rfl, rfl, rfl, rfl⟩, .fail e⟩
      rw [hok]
      cases hpeer : r.conn.session.reconcilePeer with
      | true =>
        refine ⟨⟨rfl, rfl, rfl, rfl, rfl, rfl, rfl⟩, ?_⟩
        show ReaderMoves Brings r (if r.conn.session.reconcilePeer then _ else _) _ _ _ _
        rw [if_pos hpeer]
        exact .frame hidle hv hpeer
      | false =>
        refine ⟨⟨rfl, rfl, rfl, rfl, rfl, rfl, rfl⟩, ?_⟩
        show ReaderMoves Brings r (if r.conn.session.reconcilePeer then _ else _) _ _ _ _
        rw [hpeer]
        exact .ack hidle hv hpeer

end RunState

/-- The version that the frame of an action acknowledges. -/
def RunAction.Brings (S : Stdlib) (a : RunAction) (v : Version) : Prop :=
  ∃ F, a = .receive F (ackPayload S v)

/-- The action is one of the session: the frames received are acknowledgements, and
no other goroutine changes the node. -/
def RunAction.OfSession (S : Stdlib) : RunAction → Prop
  | .receive _ payload => ∃ v, payload = ackPayload S v
  | .other _ => False
  | _ => True

/-- Everything that an action of the session can do. -/
theorem RunState.step_cases {S : Stdlib} (hS : S.Lawful) (r : RunState) {a : RunAction}
    (ha : a.OfSession S) :
    (Kept r (r.step S a) ∧ Advanced S r (r.step S a).run (r.step S a).past) ∨
      Moved (a.Brings S) r (r.step S a) := by
  cases a with
  | run F => exact .inl ⟨advance_frame S F r, advance_cases S F r⟩
  | receive F payload =>
    obtain ⟨v, rfl⟩ := ha
    exact .inr (receive_ack hS F v r ⟨F, rfl⟩)
  | handle F => exact .inr (handle_cases S F r _)
  | blobAck key => exact .inl (blobAck_cases S r key)
  | expire F => exact .inl (expire_cases S F r)
  | other step => exact absurd ha id

end StreamHive.Lifecycle
