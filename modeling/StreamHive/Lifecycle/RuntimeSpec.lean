import StreamHive.Lifecycle.Runtime

/-!
# What the operations of the runtime can do

Every operation of the runtime is a sequence of small moves, each of them one call
of the applier, of the watermark book or of the authority.  Two operations also
replace files: a compaction, and a received snapshot that is newer than what the
peer is known to have sent.

## Main results

* `RepairSession.handle_moved` — a frame received by a session;
* `put_moves`, `delete_moves` — the local mutations;
* `handleFrame_moves` — a frame received by the runtime;
* `compact_cases`, `compact_replaces` — a compaction.
-/

namespace StreamHive.Lifecycle

open Verified ByteString Effect FileSystem Log

/-! ## Small moves of a node -/

namespace Node

def withApplier (n : Node) (a : Applier) : Node := { n with toApplier := a }

def withBook (n : Node) (d : OnDisk WatermarkBook) : Node :=
  { n with fs := d.fs, watermarks := d.obj }

/-- The node after the calls of an applier or of the watermark book. -/
inductive Move (S : Stdlib) (F : Faults) (n : Node) : Node → Prop
  | apply (i : Nat) (capabilities : List String) (record : Record)
      (suppliedBlob : Option Bytes) :
      Move S F n (n.withApplier (finalState (Applier.apply S F i capabilities record
        suppliedBlob n.toApplier)))
  | acknowledge (peer : Bytes) (version : Version) :
      Move S F n (n.withBook (finalState (RepairCoordinator.acknowledge S F n.journal
        peer version ⟨n.fs, n.watermarks⟩)))
  | reconcile (peer : Bytes) (version : Version) :
      Move S F n (n.withBook (finalState (RepairCoordinator.reconcile S F n.journal
        peer version ⟨n.fs, n.watermarks⟩)))

/-- A sequence of moves. -/
abbrev Moves (S : Stdlib) (F : Faults) : Node → Node → Prop :=
  Relation.ReflTransGen (Move S F)

end Node

/-! ## Sessions -/

namespace RepairSession

variable {S : Stdlib} {F : Faults} {s₀ s : SessionState}

/-- The node has moved; the session is the same but for the mark that the peer has
reported. -/
structure Moved (S : Stdlib) (F : Faults) (s₀ s : SessionState) : Prop where
  node : Node.Moves S F s₀.node s.node
  session : s.session = { s₀.session with helloReceived := s.session.helloReceived }

theorem Moved.refl (s : SessionState) : Moved S F s s := ⟨.refl, rfl⟩

theorem Moved.wrote (h : Moved S F s₀ s) (payload : Bytes) :
    Moved S F s₀ (s.wrote payload) := ⟨h.node, h.session⟩

theorem writeAck_moved (watermark : Version) :
    Preserves (Moved S F s₀) (writeAck S F watermark) := writeAck_triple fun _ h => h.wrote _

theorem Moved.onBook {x : EStateM Error (OnDisk WatermarkBook) Unit} (h : Moved S F s₀ s)
    (hx : Node.Move S F s.node
      (s.node.withBook (finalState (x ⟨s.node.fs, s.node.watermarks⟩)))) :
    Moved S F s₀ (finalState (SessionState.onBook x s)) := by
  unfold SessionState.onBook zoom
  cases hcall : x ⟨s.node.fs, s.node.watermarks⟩ with
  | ok u d | error e d =>
    rw [hcall] at hx
    exact ⟨h.node.tail hx, h.session⟩

theorem applyRecords_moved (capabilities : List String) (records : List Record) :
    Preserves (Moved S F s₀) (applyRecords S F capabilities records) := by
  unfold applyRecords
  refine forEach_triple (I := fun _ s => Moved S F s₀ s) (fun i record rest => ?_) 0 records
  refine Triple.bind (R := fun _ s => Moved S F s₀ s) ?_ fun _ => Triple.pure fun _ h => h
  refine Triple.of_finalState fun s hs => ?_
  have hmove : Node.Move S F s.node _ := .apply i capabilities record none
  unfold SessionState.onApplier zoom
  cases hcall : Applier.apply S F i capabilities record none s.node.toApplier with
  | ok result a | error e a =>
    rw [hcall] at hmove
    exact ⟨hs.node.tail hmove, hs.session⟩

/-- The acknowledgement behind a batch or a snapshot: record it, and answer. -/
theorem acknowledge_moved (peer : Bytes) (version : Version) :
    Preserves (Moved S F s₀)
      (do SessionState.onBook (RepairCoordinator.acknowledge S F (← get).node.journal peer
            version)
          writeAck S F version) := by
  refine Triple.get_bind fun s hs => ?_
  refine Triple.bind (R := fun _ s => Moved S F s₀ s) ?_ fun _ => writeAck_moved version
  refine Triple.of_finalState fun t ht => ?_
  rw [ht]
  exact hs.onBook (.acknowledge peer version)

theorem handleAck_moved (ack : RepairAck) :
    Preserves (Moved S F s₀) (handleAck S F ack) := by
  unfold handleAck
  refine Triple.get_bind fun s hs => ?_
  split
  · refine Triple.bind (R := fun _ t => t = { s with session :=
      { s.session with helloReceived := true } }) (Triple.modify ?_) fun _ => ?_
    · rintro _ rfl
      rfl
    have hmarked : Moved S F s₀ { s with session :=
        { s.session with helloReceived := true } } := by
      refine ⟨hs.node, ?_⟩
      show { s.session with helloReceived := true } = _
      rw [hs.session]
    split
    · refine Triple.of_finalState fun t ht => ?_
      rw [ht]
      exact hmarked.onBook (.reconcile _ _)
    · refine Triple.pure fun t ht => ?_
      rw [ht]
      exact hmarked
  · refine Triple.of_finalState fun t ht => ?_
    rw [ht]
    exact hs.onBook (.acknowledge _ _)

theorem handleBatch_moved (batch : RepairBatch) :
    Preserves (Moved S F s₀) (handleBatch S F batch) := by
  unfold handleBatch
  refine Triple.get_bind fun s hs => ?_
  have hsame : ∀ t, t = s → Moved S F s₀ t := fun t ht => ht ▸ hs
  refine Triple.bind (Triple.attempt fun t _ ht _ => hsame t ht) fun delivery => ?_
  refine Triple.weaken (P := Moved S F s₀) ?_ (fun t ht => hsame t ht.1) (fun _ _ h => h)
    fun _ _ h => h
  split
  · exact writeAck_moved _
  · exact Triple.bind (applyRecords_moved _ _) fun _ => acknowledge_moved _ _

end RepairSession

/-- The session state after the snapshot has been handed to the applier. -/
def SessionState.installed (S : Stdlib) (F : Faults) (snapshot : RepairSnapshot)
    (s : SessionState) : SessionState :=
  { s with node := s.node.withApplier (finalState (Applier.applySnapshot S F
      s.session.capabilities ⟨snapshot.watermark, snapshot.records⟩ s.session.checkpointPath
      s.node.toApplier)) }

namespace RepairSession

variable {S : Stdlib} {F : Faults}

/-- A snapshot that is not newer is answered; another one is installed first. -/
theorem handleSnapshot_moved (snapshot : RepairSnapshot) (s : SessionState) :
    Moved S F s (finalState (handleSnapshot S F snapshot s)) ∨
      (s.watermark < snapshot.watermark ∧
        Moved S F (s.installed S F snapshot)
          (finalState (handleSnapshot S F snapshot s))) := by
  unfold handleSnapshot
  rw [run_bind_get]
  simp only [Version.compare_le_zero]
  by_cases hold : snapshot.watermark ≤ s.watermark
  · rw [if_pos hold]
    exact .inl ((writeAck_moved _).finalState (Moved.refl s))
  rw [if_neg hold]
  refine .inr ⟨not_le.mp hold, ?_⟩
  cases hcall : Applier.applySnapshot S F s.session.capabilities
      ⟨snapshot.watermark, snapshot.records⟩ s.session.checkpointPath s.node.toApplier with
  | error e a =>
    have hinstall : SessionState.onApplier (Applier.applySnapshot S F
        s.session.capabilities ⟨snapshot.watermark, snapshot.records⟩
        s.session.checkpointPath) s = .error e { s with node := s.node.withApplier a } :=
      run_zoom_error hcall
    unfold SessionState.installed
    rw [run_bind_error hinstall, hcall]
    exact Moved.refl _
  | ok u a =>
    have hinstall : SessionState.onApplier (Applier.applySnapshot S F
        s.session.capabilities ⟨snapshot.watermark, snapshot.records⟩
        s.session.checkpointPath) s = .ok () { s with node := s.node.withApplier a } :=
      run_zoom hcall
    unfold SessionState.installed
    rw [run_bind_ok hinstall, hcall]
    exact (acknowledge_moved _ _).finalState (Moved.refl _)

/-- The payload is a snapshot that is newer than what the session has received. -/
def Brings (S : Stdlib) (s : SessionState) (payload : Bytes) (snapshot : RepairSnapshot) :
    Prop :=
  (∃ frame, decodeRepairFrame S payload s.node.repairLimits = .ok frame ∧
    frame.snapshot = some snapshot) ∧ s.watermark < snapshot.watermark

/-- A received frame moves the node, behind the installation of a newer snapshot. -/
theorem handle_moved (payload : Bytes) (s : SessionState) :
    Moved S F s (finalState (handle S F payload s)) ∨
      ∃ snapshot, Brings S s payload snapshot ∧
        Moved S F (s.installed S F snapshot) (finalState (handle S F payload s)) := by
  rcases handle_cases (S := S) F payload s with ⟨e, hrun, _⟩ | ⟨frame, hframe, _, hrun⟩
  · rw [hrun]
    exact .inl (Moved.refl s)
  rw [hrun]
  unfold handleFrame
  cases frame.ack with
  | some ack => exact .inl ((handleAck_moved _).finalState (Moved.refl s))
  | none =>
  cases frame.batch with
  | some batch => exact .inl ((handleBatch_moved _).finalState (Moved.refl s))
  | none =>
  cases hsnapshot : frame.snapshot with
  | none => exact .inl (Moved.refl s)
  | some snapshot =>
    rcases handleSnapshot_moved (S := S) (F := F) snapshot s with hmoved | ⟨hnew, hmoved⟩
    · exact .inl hmoved
    · exact .inr ⟨snapshot, ⟨⟨frame, hframe, hsnapshot⟩, hnew⟩, hmoved⟩

end RepairSession

/-! ## The runtime -/

namespace LifecycleRuntime

variable {S : Stdlib} {F : Faults}

def withNode (r : LifecycleRuntime) (n : Node) : LifecycleRuntime := { r with node := n }

def withAuthority (r : LifecycleRuntime) (d : OnDisk Authority) : LifecycleRuntime :=
  { r with node := { r.node with fs := d.fs }, authority := d.obj }

def withJournal (r : LifecycleRuntime) (d : OnDisk Journal) : LifecycleRuntime :=
  r.withNode (r.node.withApplier (r.node.toApplier.withJournal d))

def withSession (r : LifecycleRuntime) (key : String) (session : RepairSession) :
    LifecycleRuntime := { r with sessions := Function.update r.sessions key (some session) }

/-- A move of the node, a call of the authority, or the mark in a session that its peer
has reported. -/
inductive Move (S : Stdlib) (F : Faults) (r : LifecycleRuntime) : LifecycleRuntime → Prop
  | node {n : Node} (h : Node.Move S F r.node n) : Move S F r (r.withNode n)
  | next : Move S F r (r.withAuthority (finalState (Authority.next S (F .authority)
      r.node.journal.lastVersion ⟨r.node.fs, r.authority⟩)))
  | session {key : String} {session : RepairSession} (h : r.sessions key = some session)
      (hello : Bool) :
      Move S F r (r.withSession key { session with helloReceived := hello })

/-- A sequence of moves. -/
abbrev Moves (S : Stdlib) (F : Faults) : LifecycleRuntime → LifecycleRuntime → Prop :=
  Relation.ReflTransGen (Move S F)

theorem Moves.of_node {r : LifecycleRuntime} {n n' : Node} (h : Node.Moves S F n n') :
    Moves S F (r.withNode n) (r.withNode n') := by
  induction h with
  | refl => exact .refl
  | tail _ hmove ih => exact ih.tail (.node (r := r.withNode _) hmove)

/-- What an operation that is a sequence of moves has come to. -/
theorem onApplier_moves {α : Type} {x : EStateM Error Applier α} {r₀ r : LifecycleRuntime}
    (h : Moves S F r₀ r)
    (hx : Node.Move S F r.node (r.node.withApplier (finalState (x r.node.toApplier)))) :
    Moves S F r₀ (finalState (onApplier x r)) := by
  unfold onApplier zoom
  cases hcall : x r.node.toApplier with
  | ok u a | error e a =>
    rw [hcall] at hx
    exact h.tail (.node hx)

/-- The local mutation: a version, and the record that carries it. -/
theorem mutate_moves (nameSpace logicalKey : Bytes) (state : LifecycleState)
    (blobKey : Bytes) (data : Option Bytes) (r : LifecycleRuntime) :
    Moves S F r (finalState (mutate S F nameSpace logicalKey state blobKey data r)) := by
  unfold mutate
  have hnext : Move S F r _ := .next
  cases hcall : Authority.next S (F .authority) r.node.journal.lastVersion
      ⟨r.node.fs, r.authority⟩ with
  | error e d =>
    rw [hcall] at hnext
    have hversion : nextVersion S F r = .error e (r.withAuthority d) := by
      show onAuthority (Authority.next S (F .authority) r.node.journal.lastVersion) r = _
      unfold onAuthority zoom
      rw [hcall]
      rfl
    rw [run_bind_error hversion]
    exact .single hnext
  | ok version d =>
    rw [hcall] at hnext
    have hversion : nextVersion S F r = .ok version (r.withAuthority d) := by
      show onAuthority (Authority.next S (F .authority) r.node.journal.lastVersion) r = _
      unfold onAuthority zoom
      rw [hcall]
      rfl
    rw [run_bind_ok hversion, run_bind_get]
    have hmoves := onApplier_moves (S := S) (F := F) (r := r.withAuthority d)
      (x := Applier.apply S F 0 [lifecycleCapabilityV1] ⟨nameSpace, logicalKey, state,
        blobKey, version, (r.withAuthority d).authority.authorityID⟩ data)
      (.single hnext) (.apply 0 _ _ data)
    cases hrun : onApplier (Applier.apply S F 0 [lifecycleCapabilityV1] ⟨nameSpace,
        logicalKey, state, blobKey, version, (r.withAuthority d).authority.authorityID⟩
        data) (r.withAuthority d) with
    | ok result r' =>
      rw [hrun] at hmoves
      rw [run_bind_ok hrun]
      exact hmoves
    | error e r' =>
      rw [hrun] at hmoves
      rw [run_bind_error hrun]
      exact hmoves

theorem put_moves (nameSpace logicalKey data : Bytes) (blobKey : Option Bytes)
    (r : LifecycleRuntime) :
    Moves S F r (finalState (put S F nameSpace logicalKey data blobKey r)) := by
  unfold put
  rw [run_bind_get]
  cases r.node.store.validateKey nameSpace logicalKey with
  | error e => exact .refl
  | ok _ =>
    rw [run_bind_ok (run_attempt rfl)]
    cases contentKey S data blobKey with
    | error e => exact .refl
    | ok key =>
      rw [run_bind_ok (run_attempt rfl)]
      exact mutate_moves nameSpace logicalKey .present key (some data) r

theorem delete_moves (nameSpace logicalKey : Bytes) (r : LifecycleRuntime) :
    Moves S F r (finalState (delete S F nameSpace logicalKey r)) := by
  unfold delete
  rw [run_bind_get]
  cases r.node.store.validateKey nameSpace logicalKey with
  | error e => exact .refl
  | ok _ =>
    rw [run_bind_ok (run_attempt rfl)]
    exact mutate_moves nameSpace logicalKey .deleted [] none r

/-- The runtime after a snapshot of the session has been handed to the applier. -/
def installed (S : Stdlib) (F : Faults) (session : RepairSession) (snapshot : RepairSnapshot)
    (r : LifecycleRuntime) : LifecycleRuntime :=
  r.withNode (SessionState.installed S F snapshot ⟨r.node, session, []⟩).node

theorem moves_of_moved {r r₁ : LifecycleRuntime} {key : String} {session : RepairSession}
    (hsession : r.sessions key = some session) {s s' : SessionState}
    (hs : s.session = session) (hr : r₁ = r.withNode s.node)
    (h : RepairSession.Moved S F s s') :
    Moves S F r₁ ((r.withNode s'.node).withSession key s'.session) := by
  have hnode : Moves S F r₁ (r.withNode s'.node) := hr ▸ Moves.of_node h.node
  have hmark := @Move.session S F (r.withNode s'.node) key session hsession
    s'.session.helloReceived
  rw [← hs, ← h.session] at hmark
  exact hnode.tail hmark

/-- A frame moves the runtime, behind the installation of a newer snapshot. -/
theorem handleFrame_moves (key : String) (payload : Bytes) (r : LifecycleRuntime) :
    Moves S F r (finalState (handleFrame S F key payload r)) ∨
      ∃ session snapshot, r.sessions key = some session ∧
        RepairSession.Brings S ⟨r.node, session, []⟩ payload snapshot ∧
        Moves S F (r.installed S F session snapshot)
          (finalState (handleFrame S F key payload r)) := by
  unfold handleFrame
  rw [run_bind_get]
  cases hsession : r.sessions key with
  | none => exact .inl .refl
  | some session =>
    dsimp only
    have hfinal : finalState (zoom (fun r : LifecycleRuntime =>
        SessionState.mk r.node session []) (fun r s => { r with
          node := s.node
          sessions := Function.update r.sessions key (some s.session) })
        (RepairSession.handle S F payload) r) = (r.withNode (finalState
          (RepairSession.handle S F payload ⟨r.node, session, []⟩)).node).withSession key
        (finalState (RepairSession.handle S F payload ⟨r.node, session, []⟩)).session := by
      unfold zoom
      cases RepairSession.handle S F payload ⟨r.node, session, []⟩ <;> rfl
    rw [hfinal]
    rcases RepairSession.handle_moved (S := S) (F := F) payload ⟨r.node, session, []⟩ with
      hmoved | ⟨snapshot, hbrings, hmoved⟩
    · exact .inl (moves_of_moved hsession rfl rfl hmoved)
    · exact .inr ⟨session, snapshot, rfl, hbrings,
        moves_of_moved hsession rfl rfl hmoved⟩

/-! ## Compaction -/

/-- The request that a compaction makes. -/
def compaction (r : LifecycleRuntime) (peerWatermarks : List Version) : CompactionRequest :=
  ⟨r.checkpointPath, r.node.journal.lastVersion, r.node.store.snapshot, r.snapshot,
    peerWatermarks⟩

/-- The checkpoint that a compaction writes. -/
def nextCheckpoint (r : LifecycleRuntime) : Checkpoint :=
  ⟨r.node.journal.lastVersion, r.node.store.snapshot⟩

/-- A compaction is refused with nothing changed, or compacts the journal and then
keeps the checkpoint. -/
theorem compact_cases (S : Stdlib) (F : Faults) (r : LifecycleRuntime) :
    (∃ e, compact S F r = .error e r) ∨
      ∃ peerWatermarks,
        (∃ e d, Journal.compact S F (r.compaction peerWatermarks)
            ⟨r.node.fs, r.node.journal⟩ = .error e d ∧
          compact S F r = .error e (r.withJournal d)) ∨
        (∃ d, Journal.compact S F (r.compaction peerWatermarks)
            ⟨r.node.fs, r.node.journal⟩ = .ok () d ∧
          compact S F r = .ok () { r.withJournal d with snapshot := some r.nextCheckpoint }) := by
  unfold compact
  rw [run_bind_get]
  dsimp only
  by_cases hprogress : r.node.journal.lastVersion.compare r.node.journal.floor ≤ 0
  · exact .inl ⟨_, run_bind_error (run_raiseIf_error hprogress)⟩
  rw [run_bind_ok (run_raiseIf hprogress)]
  cases r.membership.watermarksAt (F .membership) r.node.watermarks
      r.node.journal.lastVersion with
  | error e => exact .inl ⟨e, run_bind_error (run_attempt_error rfl)⟩
  | ok peerWatermarks =>
    rw [run_bind_ok (run_attempt rfl)]
    refine .inr ⟨peerWatermarks, ?_⟩
    cases hcall : Journal.compact S F (r.compaction peerWatermarks)
        ⟨r.node.fs, r.node.journal⟩ with
    | error e d =>
      have hrun : onApplier (onJournal (Journal.compact S F
          (r.compaction peerWatermarks))) r = .error e (r.withJournal d) :=
        run_zoom_error (run_zoom_error hcall)
      exact .inl ⟨e, d, rfl, run_bind_error hrun⟩
    | ok u d =>
      have hrun : onApplier (onJournal (Journal.compact S F
          (r.compaction peerWatermarks))) r = .ok () (r.withJournal d) :=
        run_zoom (run_zoom hcall)
      exact .inr ⟨d, rfl, run_bind_ok hrun⟩

/-- The two replacements of a compaction, and what it makes of their result. -/
structure Compacts (S : Stdlib) (F : Faults) (r : LifecycleRuntime) (file : File) : Prop where
  opened : r.node.journal.ensureOpen = .ok file
  writable : r.nextCheckpoint.Writable S r.node.journal.limits
  error : ∀ {e d}, replaceFiles S F r.checkpointPath (checkpointBytes S r.nextCheckpoint) file
      (r.node.journal.log.cut r.node.journal.lastVersion) ⟨r.node.fs, r.node.journal⟩ =
      .error e d → compact S F r = .error e (r.withJournal d)
  ok : ∀ {d}, replaceFiles S F r.checkpointPath (checkpointBytes S r.nextCheckpoint) file
      (r.node.journal.log.cut r.node.journal.lastVersion) ⟨r.node.fs, r.node.journal⟩ =
      .ok () d → compact S F r = .ok () { r.withJournal d with
        snapshot := some r.nextCheckpoint }

/-- A compaction is refused with nothing changed, or comes to replace the checkpoint
and the journal. -/
theorem compact_replaces (hS : S.Lawful) (F : Faults) (r : LifecycleRuntime) :
    (∃ e, compact S F r = .error e r) ∨ ∃ file, Compacts S F r file := by
  rcases compact_cases S F r with hrefused | ⟨peers, hcases⟩
  · exact .inl hrefused
  rcases Journal.compact_cases hS F (r.compaction peers) ⟨r.node.fs, r.node.journal⟩ with
    ⟨e, he, _⟩ | ⟨_, hcompactable, file, hopen, heq⟩
  · rw [he] at hcases
    rcases hcases with ⟨e', d, hcall, hrun⟩ | ⟨d, hcall, _⟩
    · cases hcall
      exact .inl ⟨e, hrun⟩
    · cases hcall
  · refine .inr ⟨file, hopen, hcompactable.writable, ?_, ?_⟩
    · intro e d hreplace
      rw [heq.trans hreplace] at hcases
      rcases hcases with ⟨e', d', hcall, hrun⟩ | ⟨d', hcall, _⟩
      · cases hcall
        exact hrun
      · cases hcall
    · intro d hreplace
      rw [heq.trans hreplace] at hcases
      rcases hcases with ⟨e', d', hcall, _⟩ | ⟨d', hcall, hrun⟩
      · cases hcall
      · cases hcall
        exact hrun

/-- Nothing of the journal is newer than its last version. -/
theorem cut_records (r : LifecycleRuntime) :
    (r.node.journal.log.cut r.node.journal.lastVersion).records = [] := by
  rw [Segment.records_cut]
  exact after_eq_nil r.node.journal.log.le_last

theorem nextCheckpoint_normal (r : LifecycleRuntime) :
    r.nextCheckpoint.normal = r.nextCheckpoint := by
  unfold Checkpoint.normal nextCheckpoint Store.snapshot
  rw [CheckpointRecords.view_values]

end LifecycleRuntime

/-! ## A runtime on an empty directory -/

namespace Sample

/-- A configuration with an empty membership. -/
def config (repairLimits : RepairLimits) : LifecycleConfig :=
  ⟨true, "state", true, [], repairLimits, Limits.unset, options⟩

def openOn (config : LifecycleConfig) (fs : FS) :
    EStateM.Result Error FS (Option LifecycleRuntime) :=
  openLifecycleRuntime goStdlib Faults.none config (some fun _ => none) "token"
    (ascii "node") 7 fs

/-- A key is deleted; it need not exist. -/
def deleteKey (key : String) : RuntimeStep :=
  ⟨.delete (ascii "ns") (ascii key), Faults.none, fun _ => none⟩

end Sample

end StreamHive.Lifecycle
