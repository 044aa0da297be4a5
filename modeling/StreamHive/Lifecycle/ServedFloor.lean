import StreamHive.Lifecycle.CompactedRepair
import StreamHive.Lifecycle.RuntimeOpen
import StreamHive.Verified.Transition

/-!
# The checkpoint at the journal floor

A peer behind the journal floor can only be sent the checkpoint, so the runtime keeps
the checkpoint of its last compaction for the sessions that it opens.  The floor also
moves when a snapshot is installed on behalf of a peer, inside the applier, and then
the checkpoint in the runtime is the old one.

## Main results

* `served_floor` — in a run without such an installation, and without a compaction that
  fails behind the rename of the checkpoint, the runtime has the checkpoint at its
  floor, this is the one in the file, and a session opened with it never asks for
  another;
* `floor_unserved` — a runtime on an empty directory, and the first snapshot that it
  receives.
-/

namespace StreamHive.Lifecycle

open Verified ByteString Effect FileSystem Log

variable {session : RepairSession}

/-! ## Appends -/

/-- Only the file of the open journal has grown, and the journal with it. -/
structure Journal.Grown (s s' : OnDisk Journal) : Prop where
  path : s'.obj.path = s.obj.path
  limits : s'.obj.limits = s.obj.limits
  floor : s'.obj.floor = s.obj.floor
  file : s'.obj.ensureOpen = s.obj.ensureOpen
  fs : s'.fs = s.fs ∨
    ∃ ino bytes, s.obj.ensureOpen = .ok ⟨ino, false⟩ ∧ s'.fs = s.fs.extend ino bytes

theorem Journal.Grown.refl (s : OnDisk Journal) : Journal.Grown s s :=
  ⟨rfl, rfl, rfl, rfl, .inl rfl⟩

theorem Journal.append_grown (S : Stdlib) (o : Oracle) (record : Record)
    (s : OnDisk Journal) :
    Journal.Grown s (finalState (Journal.append S o record s)) := by
  rcases Journal.append_cases S o record s with ⟨e, hrun⟩ | ⟨hacc, ino, hopen, _, hcases⟩
  · rw [hrun]
    exact Journal.Grown.refl s
  rcases hcases with ⟨e, persisted, _, hrun⟩ | ⟨e, _, _, hrun⟩ | ⟨_, hrun⟩
  all_goals
    rw [hrun]
    exact ⟨rfl, rfl, rfl, rfl, .inr ⟨ino, _, hopen, rfl⟩⟩

namespace Applier

/-- What a call of the applier leaves as it was. -/
structure Grown (a a' : Applier) : Prop where
  journal : Journal.Grown ⟨a.fs, a.journal⟩ ⟨a'.fs, a'.journal⟩
  own : a'.limits = a.limits
  store : a'.store.limits = a.store.limits

theorem apply_grown (S : Stdlib) (F : Faults) (i : Nat) (capabilities : List String)
    (record : Record) (suppliedBlob : Option Bytes) (a : Applier) :
    Grown a (finalState (apply S F i capabilities record suppliedBlob a)) := by
  have happend := Journal.append_grown S (F (.append i)) record ⟨a.fs, a.journal⟩
  rcases apply_cases S F i capabilities record suppliedBlob a with
    ⟨e, blobs', hrun, _⟩ | ⟨result, hrun, _, _⟩ | ⟨result, blobs', _, _, _, _, hend⟩
  · rw [hrun]
    exact ⟨Journal.Grown.refl _, rfl, rfl⟩
  · rw [hrun]
    exact ⟨Journal.Grown.refl _, rfl, rfl⟩
  · rcases hend with ⟨e, d, hcall, hrun⟩ | ⟨d, hcall, hrun⟩
    all_goals
      rw [hcall] at happend
      rw [hrun]
      exact ⟨happend, rfl, rfl⟩

end Applier

theorem Checkpoint.writable_normalized {S : Stdlib} {limits : Limits} {c : Checkpoint} :
    c.Writable S limits.normalized ↔ c.Writable S limits := by
  constructor
  · intro h
    have hbytes := h.bytes
    rw [Limits.normalized_normalized] at hbytes
    exact ⟨checkpointRecords_normalized.mp h.records, h.word, hbytes⟩
  · intro h
    refine ⟨checkpointRecords_normalized.mpr h.records, h.word, ?_⟩
    rw [Limits.normalized_normalized]
    exact h.bytes

/-! ## The files of the runtime -/

namespace LifecycleRuntime

/-- Every file is where the configuration puts it, and the journal's is the one that
the journal holds open. -/
structure Placed (config : LifecycleConfig) (r : LifecycleRuntime) : Prop where
  checkpoint : r.checkpointPath = config.statePath "checkpoint"
  journal : r.node.journal.path = config.statePath "journal"
  authority : r.authority.path = config.statePath "authority"
  watermarks : r.node.watermarks.path = config.statePath "watermarks"
  limits : r.node.toApplier.SharesLimits config.recordLimits
  held : ∃ ino, r.node.journal.ensureOpen = .ok ⟨ino, false⟩ ∧
    r.node.fs.dir (.file (config.statePath "journal")) = some ino
  sessions : ∀ key session, r.sessions key = some session →
    session.checkpointPath = config.statePath "checkpoint"

/-- The files are in place, and nothing about the floor has changed. -/
structure Beside (config : LifecycleConfig) (r r' : LifecycleRuntime) : Prop where
  placed : r'.Placed config
  floor : r'.node.journal.floor = r.node.journal.floor
  snapshot : r'.snapshot = r.snapshot
  read : r'.node.fs.read (.file (config.statePath "checkpoint")) =
    r.node.fs.read (.file (config.statePath "checkpoint"))

variable {S : Stdlib} {F : Faults} {config : LifecycleConfig} {r r' r'' : LifecycleRuntime}

/-- What holds of every session holds when one of them has changed or is gone. -/
theorem sessions_update {P : RepairSession → Prop} {key : String} {new : Option RepairSession}
    (h : ∀ key session, r.sessions key = some session → P session)
    (hnew : ∀ session ∈ new, P session) :
    ∀ key' session, Function.update r.sessions key new key' = some session → P session := by
  intro key' session hsession
  by_cases hkey : key' = key
  · subst hkey
    rw [Function.update_self] at hsession
    exact hnew session hsession
  · rw [Function.update_of_ne hkey] at hsession
    exact h key' session hsession

/-- What `AttachPeer` does. -/
theorem attachPeer_cases (S : Stdlib) (r : LifecycleRuntime) (key : String) (remoteID : Bytes)
    (capabilities : List String) (maxFrameBytes : Int) :
    r.attachPeer S key remoteID capabilities maxFrameBytes = r ∨
      ∃ session : RepairSession, session.peerID = remoteID ∧ session.snapshot = r.snapshot ∧
        session.checkpointPath = r.checkpointPath ∧
        r.attachPeer S key remoteID capabilities maxFrameBytes = r.withSession key session := by
  unfold attachPeer
  split
  · exact .inl rfl
  split
  · exact .inl rfl
  next session hnew =>
    obtain ⟨_, _, hnew⟩ := except_bind_ok.mp hnew
    cases hnew
    exact .inr ⟨_, rfl, rfl, rfl, rfl⟩

theorem Placed.refl (h : r.Placed config) : Beside config r r := ⟨h, rfl, rfl, rfl⟩

theorem Beside.trans (h : Beside config r r') (h' : Beside config r' r'') :
    Beside config r r'' :=
  ⟨h'.placed, h'.floor.trans h.floor, h'.snapshot.trans h.snapshot, h'.read.trans h.read⟩

/-- Another file has been written. -/
theorem Placed.held_of_framed (h : r.Placed config) {name : String} {fs' : FS}
    (hfs : FS.Framed r.node.fs (config.statePath name) fs') (hname : "journal" ≠ name) :
    ∃ ino, r.node.journal.ensureOpen = .ok ⟨ino, false⟩ ∧
      fs'.dir (.file (config.statePath "journal")) = some ino := by
  obtain ⟨ino, hopen, hdir⟩ := h.held
  exact ⟨ino, hopen, (hfs.dir _ (LifecycleConfig.statePath_ne hname)).trans hdir⟩

theorem Placed.withApplier (h : r.Placed config) {a : Applier}
    (ha : Applier.Grown r.node.toApplier a) :
    Beside config r (r.withNode (r.node.withApplier a)) := by
  obtain ⟨ino, hopen, hdir⟩ := h.held
  have hdir' : a.fs.dir = r.node.fs.dir := by
    rcases ha.journal.fs with hfs | ⟨_, _, _, hfs⟩
    · exact congrArg FS.dir hfs
    · exact (congrArg FS.dir hfs).trans rfl
  have hread : a.fs.read (.file (config.statePath "checkpoint")) =
      r.node.fs.read (.file (config.statePath "checkpoint")) := by
    rcases ha.journal.fs with hfs | ⟨ino', bytes, hopen', hfs⟩
    · exact congrArg (fun fs : FS => fs.read _) hfs
    · have hino : ino' = ino := by
        have hfile := hopen'.symm.trans hopen
        cases hfile
        rfl
      rw [show a.fs = r.node.fs.extend ino' bytes from hfs, hino]
      refine FS.read_store_ne hdir ?_ _
      simpa using LifecycleConfig.statePath_ne (c := config)
        (show "checkpoint" ≠ "journal" by decide)
  have hjournal : a.journal.path = r.node.journal.path := ha.journal.path
  have hlimits : a.journal.limits = r.node.journal.limits := ha.journal.limits
  have hfile : a.journal.ensureOpen = r.node.journal.ensureOpen := ha.journal.file
  constructor
  case placed =>
    exact ⟨h.checkpoint, hjournal.trans h.journal, h.authority, h.watermarks,
      ⟨ha.own.trans h.limits.own, ha.store.trans h.limits.store,
        hlimits.trans h.limits.journal⟩,
      ⟨ino, hfile.trans hopen, (congrFun hdir' _).trans hdir⟩, h.sessions⟩
  case floor => exact ha.journal.floor
  case snapshot => rfl
  case read => exact hread

theorem Placed.withBook (h : r.Placed config) {d : OnDisk WatermarkBook}
    (hd : WatermarkBook.InPlace r.node.fs r.node.watermarks.path d) :
    Beside config r (r.withNode (r.node.withBook d)) := by
  obtain ⟨hfs, hpath⟩ := hd
  rw [h.watermarks] at hfs hpath
  constructor
  case placed =>
    exact ⟨h.checkpoint, h.journal, h.authority, hpath,
      ⟨h.limits.own, h.limits.store, h.limits.journal⟩,
      h.held_of_framed hfs (by decide), h.sessions⟩
  case floor => rfl
  case snapshot => rfl
  case read => exact hfs.read_ne (LifecycleConfig.statePath_ne (by decide))

theorem Placed.withAuthority (h : r.Placed config) {d : OnDisk Authority}
    (hfs : FS.Framed r.node.fs r.authority.path d.fs) (hpath : d.obj.path = r.authority.path) :
    Beside config r (r.withAuthority d) := by
  rw [h.authority] at hfs hpath
  constructor
  case placed =>
    exact ⟨h.checkpoint, h.journal, hpath, h.watermarks,
      ⟨h.limits.own, h.limits.store, h.limits.journal⟩,
      h.held_of_framed hfs (by decide), h.sessions⟩
  case floor => rfl
  case snapshot => rfl
  case read => exact hfs.read_ne (LifecycleConfig.statePath_ne (by decide))

theorem Placed.withSession (h : r.Placed config) {key : String}
    (hpath : session.checkpointPath = config.statePath "checkpoint") :
    Beside config r (r.withSession key session) := by
  refine ⟨⟨h.checkpoint, h.journal, h.authority, h.watermarks, h.limits, h.held, ?_⟩,
    rfl, rfl, rfl⟩
  exact sessions_update h.sessions fun _ hnew => Option.some.inj hnew ▸ hpath

/-- A small move does not touch the floor or the checkpoint. -/
theorem Move.beside (hmove : Move S F r r') (h : r.Placed config) : Beside config r r' := by
  cases hmove with
  | node hnode =>
    cases hnode with
    | apply i capabilities record suppliedBlob =>
      exact h.withApplier (Applier.apply_grown S F i capabilities record suppliedBlob _)
    | acknowledge peer version =>
      exact h.withBook ((RepairCoordinator.acknowledge_inPlace _ _ F _ peer
        version).finalState ⟨(FS.Untouched.refl _).framed _, rfl⟩)
    | reconcile peer version =>
      exact h.withBook ((RepairCoordinator.reconcile_inPlace _ _ F _ peer
        version).finalState ⟨(FS.Untouched.refl _).framed _, rfl⟩)
  | next =>
    rcases Authority.next_spec (S := S) (F .authority) r.node.journal.lastVersion
      ⟨r.node.fs, r.authority⟩ with ⟨e, d, v, hrun, hobj, _, _, hfs, _⟩ |
      ⟨v, d, hrun, hobj, _, hwrote⟩
    · have hpath : d.obj.path = r.authority.path := by rw [hobj]; rfl
      rw [hrun]
      refine h.withAuthority ?_ hpath
      rcases hfs with hsame | ⟨_, hreplaced⟩
      · exact hsame.framed _
      · exact hreplaced.framed
    · have hpath : d.obj.path = r.authority.path := by rw [hobj]; rfl
      rw [hrun]
      exact h.withAuthority hwrote.replaced.framed hpath
  | session hsession hello =>
    have hpath := h.sessions _ _ hsession
    exact h.withSession hpath

theorem Moves.beside (hmoves : Moves S F r r') (h : r.Placed config) :
    Beside config r r' := by
  induction hmoves with
  | refl => exact h.refl
  | tail _ hmove ih => exact ih.trans (hmove.beside ih.placed)

/-! ## Steps -/

/-- Above zero, the runtime has the checkpoint at its floor, and this is the one in the
file. -/
def AtFloor (S : Stdlib) (config : LifecycleConfig) (r : LifecycleRuntime) : Prop :=
  ¬ r.node.journal.floor.IsZero → ∃ c, r.snapshot = some c ∧
    c.watermark = r.node.journal.floor ∧ CheckpointFile S config.recordLimits
      (r.node.fs.read (.file (config.statePath "checkpoint"))) (some c)

/-- The files are in place and the checkpoint is at the floor. -/
structure Anchored (S : Stdlib) (config : LifecycleConfig) (r : LifecycleRuntime) : Prop where
  placed : r.Placed config
  atFloor : r.AtFloor S config

theorem Anchored.beside (h : r.Anchored S config) (hr : Beside config r r') :
    r'.Anchored S config := by
  refine ⟨hr.placed, fun hfloor => ?_⟩
  rw [hr.floor] at hfloor
  obtain ⟨c, hsnapshot, hwatermark, hfile⟩ := h.atFloor hfloor
  exact ⟨c, hr.snapshot.trans hsnapshot, hwatermark.trans hr.floor.symm, hr.read ▸ hfile⟩

/-- The file of the checkpoint is not replaced. -/
def CheckpointRefused (F : Faults) : Prop :=
  ∃ c ∈ atomicWriteCalls, F .checkpoint c ≠ .proceed

theorem Placed.withFS (h : r.Placed config) {fs' : FS}
    (hfs : FS.Untouched r.node.fs fs') :
    Beside config r (r.withJournal ⟨fs', r.node.journal⟩) := by
  obtain ⟨ino, hopen, hdir⟩ := h.held
  refine ⟨⟨h.checkpoint, h.journal, h.authority, h.watermarks,
    ⟨h.limits.own, h.limits.store, h.limits.journal⟩, ⟨ino, hopen, ?_⟩, h.sessions⟩,
    rfl, rfl, hfs.read _⟩
  exact (hfs.dir _).trans hdir

/-- A compaction that has replaced both files has its checkpoint at the floor. -/
theorem Placed.compacted (hS : S.Lawful) (h : r.Placed config)
    (hwritable : r.nextCheckpoint.Writable S config.recordLimits) {fs₁ fs' : FS} {ino : Nat}
    (hfs₁ : FS.Replaced r.node.fs (config.statePath "checkpoint")
      (checkpointBytes S r.nextCheckpoint) fs₁) {log : JournalLog}
    (hfs : FS.Replaced fs₁ (config.statePath "journal") (journalBytes S log) fs')
    (hdir : fs'.dir (.file (config.statePath "journal")) = some ino) {size : Nat}
    (hfloor : log.floor = r.nextCheckpoint.watermark) :
    Anchored S config { r.withJournal ⟨fs', r.node.journal.adopted ino size log⟩ with
      snapshot := some r.nextCheckpoint } := by
  obtain ⟨ino₀, hopen, _⟩ := h.held
  have hclosed : r.node.journal.closed = false := Journal.closed_of_ensureOpen hopen
  constructor
  case placed =>
    refine ⟨h.checkpoint, h.journal, h.authority, h.watermarks,
      ⟨h.limits.own, h.limits.store, h.limits.journal⟩, ⟨ino, ?_, hdir⟩, h.sessions⟩
    show (r.node.journal.adopted ino size log).ensureOpen = _
    unfold Journal.ensureOpen Journal.adopted
    simp [hclosed]
  case atFloor =>
    intro _
    refine ⟨r.nextCheckpoint, rfl, hfloor.symm, ?_⟩
    have hread : fs'.read (.file (config.statePath "checkpoint")) =
        some (checkpointBytes S r.nextCheckpoint) := by
      rw [hfs.read_ne (LifecycleConfig.statePath_ne (by decide))]
      exact hfs₁.read
    have hfile := checkpointFile_of_bytes hS hwritable
    rw [nextCheckpoint_normal, ← hread] at hfile
    exact hfile

theorem Anchored.compact (hS : S.Lawful) (h : r.Anchored S config)
    (hF : CheckpointRefused F ∨
      (F .checkpoint .syncDirectory = .proceed ∧ ∀ c, F .rewrite c = .proceed)) :
    (finalState (LifecycleRuntime.compact S F r)).Anchored S config := by
  have hp := h.placed
  rcases compact_replaces hS F r with ⟨e, hrun⟩ | ⟨file, hc⟩
  · rw [hrun]
    exact h
  obtain ⟨ino₀, hopen₀, _⟩ := hp.held
  have hfile : file.closed = false := by
    have hsame := hc.opened.symm.trans hopen₀
    cases hsame
    rfl
  rcases replaceFiles_cases S F r.checkpointPath (checkpointBytes S r.nextCheckpoint) file
    (r.node.journal.log.cut r.node.journal.lastVersion) ⟨r.node.fs, r.node.journal⟩ with
    ⟨e, fs', hreplace, hfs, _⟩ | ⟨hproceed, fs₁, hfs₁, hrest⟩
  · rw [hc.error hreplace]
    exact h.beside (hp.withFS hfs)
  obtain ⟨hsync, hrewrite⟩ : F .checkpoint .syncDirectory = .proceed ∧
      ∀ c, F .rewrite c = .proceed := by
    rcases hF with ⟨c, hin, hrefused⟩ | hF
    · exact absurd (hproceed c hin) hrefused
    · exact hF
  rcases hrest with ⟨e, fs', _, _, hwhy⟩ | ⟨_, _, _, fs', hfs, hend⟩
  · rcases hwhy with hno | ⟨c, _, hno⟩ | hno
    · exact absurd hsync hno
    · exact absurd (hrewrite c) hno
    · rw [cut_records] at hno
      exact absurd trivial hno
  rcases hend with ⟨e, j', _, _, hwhy⟩ | ⟨ino, hreplace, hdir, _⟩
  · rcases hwhy with hclosed | ⟨c, _, hno⟩
    · rw [hfile] at hclosed
      cases hclosed
    · exact absurd (hrewrite c) hno
  rw [hc.ok hreplace]
  rw [hp.checkpoint] at hfs₁
  rw [show r.node.journal.path = _ from hp.journal] at hfs hdir
  have hwritable := hc.writable
  rw [show r.node.journal.limits = _ from hp.limits.journal] at hwritable
  exact hp.compacted hS (Checkpoint.writable_normalized.mp hwritable) hfs₁ hfs hdir rfl

/-- The payload brings a snapshot that the applier installs if it can write. -/
def Installs (S : Stdlib) (blobs : Blobs) (key : String) (payload : Bytes)
    (r : LifecycleRuntime) : Prop :=
  ∃ session snapshot, r.sessions key = some session ∧
    RepairSession.Brings S ⟨r.node, session, []⟩ payload snapshot ∧
    r.node.journal.Installable S session.checkpointPath
      ⟨snapshot.watermark, snapshot.records⟩ ∧
    ∀ record ∈ snapshot.records, HoldsBlob S (some blobs) record

/-- A snapshot that is not installed changes nothing. -/
theorem Placed.installed (hS : S.Lawful) (h : r.Placed config) {snapshot : RepairSnapshot}
    (hkeep : CheckpointRefused F ∨ ¬ (r.node.journal.Installable S session.checkpointPath
      ⟨snapshot.watermark, snapshot.records⟩ ∧
        ∀ record ∈ snapshot.records, HoldsBlob S r.node.blobs record)) :
    Beside config r (r.installed S F session snapshot) := by
  have hinstalled : ∀ {result : EStateM.Result Error Applier Unit},
      Applier.applySnapshot S F session.capabilities ⟨snapshot.watermark, snapshot.records⟩
        session.checkpointPath r.node.toApplier = result →
      r.installed S F session snapshot = r.withNode (r.node.withApplier (finalState result)) := by
    intro result hresult
    rw [← hresult]
    rfl
  rcases Applier.applySnapshot_cases S F session.capabilities
    ⟨snapshot.watermark, snapshot.records⟩ session.checkpointPath h.limits with
    ⟨e, hrun⟩ | ⟨hrecords, hholds, hcases⟩
  · rw [hinstalled hrun]
    exact h.refl
  rcases Journal.installSnapshot_cases hS F session.checkpointPath
    (Checkpoint.mk snapshot.watermark snapshot.records).normal
    ⟨r.node.fs, r.node.journal⟩ with ⟨e, he, _⟩ | ⟨_, hnormal, file, hopen, heq⟩
  · rcases hcases with ⟨e', d, hcall, hrun⟩ | ⟨d, hcall, _⟩
    · rw [he] at hcall
      cases hcall
      rw [hinstalled hrun]
      exact h.refl
    · rw [he] at hcall
      cases hcall
  have hinstallable : r.node.journal.Installable S session.checkpointPath
      ⟨snapshot.watermark, snapshot.records⟩ := by
    refine ⟨hnormal.path, hnormal.fresh, Checkpoint.Writable.of_normal ?_ hnormal.writable⟩
    rw [show (OnDisk.mk r.node.fs r.node.journal).obj.limits = _ from h.limits.journal]
    exact checkpointRecords_normalized.mpr hrecords
  obtain ⟨c, hc, hrefused⟩ := hkeep.resolve_right (not_not.mpr ⟨hinstallable, hholds⟩)
  rcases replaceFiles_cases S F session.checkpointPath (checkpointBytes S
    (Checkpoint.mk snapshot.watermark snapshot.records).normal) file
    (Segment.reset Record.version snapshot.watermark) ⟨r.node.fs, r.node.journal⟩ with
    ⟨e, fs', hreplace, hfs, _⟩ | ⟨hproceed, _⟩
  · rw [heq.trans hreplace] at hcases
    rcases hcases with ⟨e', d, hcall, hrun⟩ | ⟨d, hcall, _⟩
    · cases hcall
      rw [hinstalled hrun]
      exact h.withFS hfs
    · cases hcall
  · exact absurd (hproceed c hc) hrefused

theorem Anchored.handleFrame (hS : S.Lawful) {blobs : Blobs}
    (h : r.Anchored S config) (hblobs : r.node.blobs = some blobs) {key : String}
    {payload : Bytes} (hkeep : CheckpointRefused F ∨ ¬ r.Installs S blobs key payload) :
    (finalState (LifecycleRuntime.handleFrame S F key payload r)).Anchored S config := by
  rcases handleFrame_moves (S := S) (F := F) key payload r with hmoves |
    ⟨session, snapshot, hsession, hbrings, hmoves⟩
  · exact h.beside (hmoves.beside h.placed)
  · have hinstalled : Beside config r (r.installed S F session snapshot) := by
      refine h.placed.installed hS (hkeep.imp_right fun hnot hyes => hnot ?_)
      exact ⟨session, snapshot, hsession, hbrings, hyes.1, hblobs ▸ hyes.2⟩
    exact h.beside (hinstalled.trans (hmoves.beside hinstalled.placed))

/-- A step does not move the floor or the checkpoint behind the runtime's back: a
compaction fails before the checkpoint is replaced or not at all, and no snapshot is
installed. -/
def Keeps (S : Stdlib) (r : LifecycleRuntime) (step : RuntimeStep) : Prop :=
  match step.call with
  | .compact => CheckpointRefused step.faults ∨
      (step.faults .checkpoint .syncDirectory = .proceed ∧
        ∀ c, step.faults .rewrite c = .proceed)
  | .handleFrame key payload =>
    CheckpointRefused step.faults ∨ ¬ r.Installs S step.blobs key payload
  | _ => True

theorem finalState_discard {ε σ α : Type} (x : EStateM.Result ε σ α) :
    finalState (discard x) = finalState x := by
  cases x <;> rfl

theorem Anchored.attachPeer (h : r.Anchored S config) (key : String) (remoteID : Bytes)
    (capabilities : List String) (maxFrameBytes : Int) :
    (r.attachPeer S key remoteID capabilities maxFrameBytes).Anchored S config := by
  rcases attachPeer_cases S r key remoteID capabilities maxFrameBytes with
    hsame | ⟨session, _, _, hpath, hnew⟩
  · exact hsame.symm ▸ h
  · rw [hnew]
    exact h.beside (h.placed.withSession (hpath.trans h.placed.checkpoint))

theorem Anchored.forgetPeer (h : r.Anchored S config) (key : String) :
    (r.forgetPeer key).Anchored S config := by
  have hp := h.placed
  refine ⟨⟨hp.checkpoint, hp.journal, hp.authority, hp.watermarks, hp.limits, hp.held, ?_⟩,
    h.atFloor⟩
  exact sessions_update hp.sessions nofun

/-- The blob store has other contents. -/
theorem Anchored.withBlobs (h : r.Anchored S config) (blobs : Option Blobs) :
    Anchored S config { r with node := { r.node with blobs := blobs } } := by
  have hp := h.placed
  exact ⟨⟨hp.checkpoint, hp.journal, hp.authority, hp.watermarks,
    ⟨hp.limits.own, hp.limits.store, hp.limits.journal⟩, hp.held, hp.sessions⟩, h.atFloor⟩

theorem Anchored.step (hS : S.Lawful) (h : r.Anchored S config) {step : RuntimeStep}
    (hkeep : r.Keeps S step) : (r.step S step).Anchored S config := by
  have hblobs := h.withBlobs (some step.blobs)
  obtain ⟨call, F, blobs⟩ := step
  cases call with
  | put nameSpace logicalKey data blobKey =>
    show Anchored S config (finalState (discard _))
    rw [finalState_discard]
    exact hblobs.beside ((put_moves nameSpace logicalKey data blobKey _).beside
      hblobs.placed)
  | delete nameSpace logicalKey =>
    show Anchored S config (finalState (discard _))
    rw [finalState_discard]
    exact hblobs.beside ((delete_moves nameSpace logicalKey _).beside hblobs.placed)
  | compact => exact hblobs.compact hS hkeep
  | attachPeer key remoteID capabilities maxFrameBytes =>
    exact hblobs.attachPeer key remoteID capabilities maxFrameBytes
  | forgetPeer key => exact hblobs.forgetPeer key
  | handleFrame key payload => exact hblobs.handleFrame hS rfl hkeep

end LifecycleRuntime

/-- An opened runtime has loaded its checkpoint. -/
theorem openLifecycleRuntime_anchored {S : Stdlib} (hS : S.Lawful) {F : Faults}
    {config : LifecycleConfig} {blobs : Option Blobs} {token : String} {peerID : Bytes}
    {random : UInt64} {fs fs' : FS} {r : LifecycleRuntime}
    (h : openLifecycleRuntime S F config blobs token peerID random fs = .ok (some r) fs') :
    r.Anchored S config := by
  obtain ⟨_, _, hbacked⟩ := openLifecycleRuntime_backed hS h
  obtain ⟨ino, hopen, hdir⟩ := hbacked.journal.ensureOpen
  constructor
  case placed =>
    refine ⟨hbacked.checkpointPath, hbacked.opened.path, ?_, hbacked.watermarksPath,
      hbacked.coherent.shared, ⟨ino, hopen, hbacked.opened.path ▸ hdir⟩, hbacked.sessions⟩
    rw [hbacked.authority]
    rfl
  case atFloor =>
    intro hfloor
    have hbase := hbacked.coherent.floor
    have hfile := hbacked.checkpoint
    cases hsnapshot : r.snapshot with
    | none =>
      rw [hsnapshot] at hbase
      exact absurd hbase.symm hfloor
    | some c =>
      rw [hsnapshot] at hbase hfile
      exact ⟨c, rfl, hbase, hfile⟩

/-- A session is opened with the checkpoint of the runtime. -/
theorem LifecycleRuntime.attachPeer_session {S : Stdlib} {r : LifecycleRuntime} {key : String}
    {remoteID : Bytes} {capabilities : List String} {maxFrameBytes : Int}
    (hnone : r.sessions key = none)
    (h : (r.attachPeer S key remoteID capabilities maxFrameBytes).sessions key =
      some session) : session.peerID = remoteID ∧ session.snapshot = r.snapshot := by
  rcases attachPeer_cases S r key remoteID capabilities maxFrameBytes with
    hsame | ⟨opened, hpeer, hsnapshot, _, hnew⟩
  · rw [hsame, hnone] at h
    cases h
  · rw [hnew] at h
    have hopened : Function.update r.sessions key (some opened) key = some session := h
    rw [Function.update_self] at hopened
    cases hopened
    exact ⟨hpeer, hsnapshot⟩

/-! ## Plans -/

/-- The plan asks for another checkpoint than the one it was given. -/
def Error.AsksSnapshot (e : Error) : Prop :=
  e = .repairSnapshotRequired ∨ e = .repairSnapshotWatermark

/-- The call does not fail for want of a checkpoint. -/
def NeverAsks {α : Type} (x : Except Error α) : Prop := ∀ e, x = .error e → ¬ e.AsksSnapshot

namespace NeverAsks

variable {α β : Type} {S : Stdlib}

theorem ok (a : α) : NeverAsks (.ok a) := nofun

theorem error {e : Error} (h : ¬ e.AsksSnapshot) : NeverAsks (.error e : Except Error α) := by
  intro e' he
  cases he
  exact h

theorem bind {x : Except Error α} {f : α → Except Error β} (hx : NeverAsks x)
    (hf : ∀ a, NeverAsks (f a)) : NeverAsks (x >>= f) := by
  intro e he
  cases x with
  | error e' =>
    cases he
    exact hx e rfl
  | ok a => exact hf a e he

theorem guard {c : Prop} [Decidable c] {e : Error} {x : Except Error α}
    (he : ¬ e.AsksSnapshot) (hx : NeverAsks x) : NeverAsks (if c then .error e else x) := by
  by_cases hc : c
  · rw [if_pos hc]
    exact error he
  · rw [if_neg hc]
    exact hx

theorem validate (r : Record) (limits : Limits) : NeverAsks (r.validate S limits) := by
  unfold Record.validate
  refine guard (by simp [Error.AsksSnapshot]) ?_
  refine guard (by simp [Error.AsksSnapshot]) ?_
  refine guard (by simp [Error.AsksSnapshot]) ?_
  refine guard (by simp [Error.AsksSnapshot]) ?_
  refine bind ?_ fun _ => guard (by simp [Error.AsksSnapshot]) (bind ?_ fun _ =>
    guard (by simp [Error.AsksSnapshot]) (ok _))
  · unfold validateAuthorityID
    refine guard (by simp [Error.AsksSnapshot]) ?_
    refine guard (by simp [Error.AsksSnapshot]) ?_
    exact guard (by simp [Error.AsksSnapshot]) (ok _)
  · unfold validateBlobKey
    cases r.state with
    | present | deleted => exact guard (by simp [Error.AsksSnapshot]) (ok _)
    | other n => exact error (by simp [Error.AsksSnapshot])

theorem validateCheckpointRecords (watermark : Version) (limits : Limits)
    (records : List Record) :
    NeverAsks (Lifecycle.validateCheckpointRecords S watermark limits records) := by
  induction records with
  | nil => exact ok _
  | cons r rest ih =>
    unfold Lifecycle.validateCheckpointRecords
    exact bind (validate r limits) fun _ => guard (by simp [Error.AsksSnapshot]) ih

theorem checkRepairSizes (limits : RepairLimits) (records : List Record) :
    ∀ logicalBytes metadataBytes, NeverAsks
      (Lifecycle.checkRepairSizes S limits logicalBytes metadataBytes records) := by
  induction records with
  | nil => exact fun _ _ => ok _
  | cons r rest ih =>
    intro logicalBytes metadataBytes
    unfold Lifecycle.checkRepairSizes
    exact guard (by simp [Error.AsksSnapshot]) (ih _ _)

theorem encodeRepairSnapshot (snapshot : RepairSnapshot) (limits : RepairLimits) :
    NeverAsks (Lifecycle.encodeRepairSnapshot S snapshot limits) := by
  unfold Lifecycle.encodeRepairSnapshot
  refine bind (guard (by simp [Error.AsksSnapshot]) (ok _)) fun _ => bind ?_ fun _ =>
    guard (by simp [Error.AsksSnapshot]) (ok _)
  unfold normalizeRepairSnapshot
  refine bind ?_ fun _ => guard (by simp [Error.AsksSnapshot])
    (bind (checkRepairSizes _ _ _ _) fun _ => ok _)
  unfold normalizeCheckpoint normalizeCheckpointRecords
  refine bind (guard (by simp [Error.AsksSnapshot]) ?_) fun _ => ok _
  exact bind (validateCheckpointRecords _ _ _) fun _ =>
    guard (by simp [Error.AsksSnapshot]) (ok _)

end NeverAsks

/-- With the checkpoint at the floor, a peer behind it is planned a snapshot. -/
theorem RepairCoordinator.plan_behind {S : Stdlib} {o : Oracle} {node : Node} {peer : Bytes}
    {c : Checkpoint} (hc : c.watermark = node.journal.floor)
    (hbehind : node.watermarks.watermark peer < node.journal.floor) :
    NeverAsks (plan S o node peer (some c)) ∧
      ∀ p, plan S o node peer (some c) = .ok p → p.mode = .snapshot := by
  have hctx : ∀ i, NeverAsks (ctxCheck o i) := by
    intro i
    unfold ctxCheck
    cases o (.ctxErr i) with
    | proceed => exact NeverAsks.ok _
    | fail n | crash n => exact NeverAsks.error (by simp [Error.AsksSnapshot])
  have hplan : planRepair S o node.journal (node.watermarks.watermark peer) (some c)
      node.repairLimits = (do
        ctxCheck o 1
        let payload ← encodeRepairSnapshot S ⟨repairSnapshotMessageType, c.watermark,
          c.records⟩ node.repairLimits.normalized
        .ok ⟨.snapshot, node.watermarks.watermark peer, node.journal.floor, false,
          payload⟩) := by
    unfold planRepair
    simp only [Version.compare_lt_zero, if_pos hbehind, hc, ne_eq, not_true_eq_false, if_false]
  unfold plan
  rw [hplan]
  constructor
  · refine NeverAsks.bind (hctx 0) fun _ => NeverAsks.bind ?_ fun _ =>
      NeverAsks.bind (hctx 1) fun _ => NeverAsks.bind (NeverAsks.encodeRepairSnapshot _ _)
        fun _ => NeverAsks.ok _
    exact NeverAsks.guard (by simp [Error.AsksSnapshot]) (NeverAsks.ok _)
  · intro p hp
    simp only [except_bind_ok] at hp
    obtain ⟨_, _, _, _, _, _, payload, _, hp⟩ := hp
    cases hp
    rfl

/-! ## Runs -/

/-- In every run of an opened runtime whose steps keep to the condition, a floor above
zero is served: the runtime has the checkpoint there, it is the one in the file, and a
peer behind the floor that is attached now is planned a snapshot. -/
theorem served_floor {S : Stdlib} (hS : S.Lawful) {F : Faults} {config : LifecycleConfig}
    {blobs : Option Blobs} {token : String} {peerID : Bytes} {random : UInt64} {fs fs' : FS}
    {start : LifecycleRuntime}
    (hopen : openLifecycleRuntime S F config blobs token peerID random fs =
      .ok (some start) fs')
    {steps : List RuntimeStep}
    (hkeeps : Transition.Along (LifecycleRuntime.step S) (LifecycleRuntime.Keeps S)
      start steps) :
    let now := Transition.run (LifecycleRuntime.step S) start steps
    ¬ now.node.journal.floor.IsZero →
      ∃ c, now.snapshot = some c ∧ c.watermark = now.node.journal.floor ∧
        loadCheckpoint S Oracle.none now.checkpointPath config.recordLimits now.node.fs =
          .ok c now.node.fs ∧
        ∀ key remoteID capabilities maxFrameBytes session, now.sessions key = none →
          (now.attachPeer S key remoteID capabilities maxFrameBytes).sessions key =
            some session →
          now.node.watermarks.watermark remoteID < now.node.journal.floor →
          ∀ o, (∀ e, RepairCoordinator.plan S o now.node session.peerID session.snapshot =
              .error e → e ≠ .repairSnapshotRequired ∧ e ≠ .repairSnapshotWatermark) ∧
            ∀ p, RepairCoordinator.plan S o now.node session.peerID session.snapshot =
              .ok p → p.mode = .snapshot := by
  intro now hfloor
  have hnow : now.Anchored S config := Transition.run_invariant
    (I := LifecycleRuntime.Anchored S config)
    (fun _ _ hkeep h => LifecycleRuntime.Anchored.step hS h hkeep) hkeeps
    (openLifecycleRuntime_anchored hS hopen)
  obtain ⟨c, hsnapshot, hwatermark, hfile⟩ := hnow.atFloor hfloor
  refine ⟨c, hsnapshot, hwatermark, ?_, ?_⟩
  · have hpath : now.checkpointPath ≠ "" := by
      rw [hnow.placed.checkpoint]
      exact LifecycleConfig.statePath_ne_empty (by decide)
    rw [← hnow.placed.checkpoint] at hfile
    exact (loadCheckpoint_proceed (o := Oracle.none) (fun _ => rfl) hpath).trans
      (run_attempt hfile)
  · intro key remoteID capabilities maxFrameBytes session hnone hattached hbehind o
    obtain ⟨hpeer, hgiven⟩ := LifecycleRuntime.attachPeer_session hnone hattached
    rw [hpeer, hgiven, hsnapshot]
    obtain ⟨hasks, hmode⟩ := RepairCoordinator.plan_behind (o := o) hwatermark hbehind
    exact ⟨fun e he => not_or.mp (hasks e he), hmode⟩

namespace Sample

theorem newRuntime_open (limits : RepairLimits)
    (h : (value? (openOn (config limits) FS.empty)).join.isSome) :
    openOn (config limits) FS.empty = .ok (some (newRuntime limits h))
      (finalState (openOn (config limits) FS.empty)) := by
  unfold newRuntime
  generalize openOn (config limits) FS.empty = result at h ⊢
  cases result with
  | error e fs => cases h
  | ok found fs =>
    cases found with
    | none => cases h
    | some r => rfl

/-- A runtime on an empty directory. -/
def emptyRuntime : LifecycleRuntime := newRuntime RepairLimits.unset unset_opens

theorem emptyRuntime_open : openLifecycleRuntime goStdlib Faults.none
    (config RepairLimits.unset) (some fun _ => none) "token" (ascii "node") 7 FS.empty =
      .ok (some emptyRuntime) (finalState (openOn (config RepairLimits.unset) FS.empty)) :=
  newRuntime_open RepairLimits.unset _

/-- A key is deleted and the journal is compacted. -/
def compactSteps : List RuntimeStep :=
  [deleteKey "a", ⟨.compact, Faults.none, fun _ => none⟩]

/-- The payload of a snapshot with one record. -/
def snapshotPayload : Bytes :=
  goStdlib.snapshot.marshal ⟨repairSnapshotMessageType, first.version, [first]⟩

/-- A peer is attached and sends its checkpoint. -/
def snapshotSteps : List RuntimeStep :=
  [⟨.attachPeer "source" (ascii "source") [lifecycleCapabilityV1] 0, Faults.none,
      fun _ => none⟩,
    ⟨.handleFrame "source" snapshotPayload, Faults.none, fun _ => none⟩]

end Sample

theorem served_floor_sample :
    ∃ c, (Transition.run (LifecycleRuntime.step goStdlib) Sample.emptyRuntime
        Sample.compactSteps).snapshot = some c ∧
      c.watermark = (Transition.run (LifecycleRuntime.step goStdlib) Sample.emptyRuntime
        Sample.compactSteps).node.journal.floor := by
  have hkeeps : Transition.Along (LifecycleRuntime.step goStdlib)
      (LifecycleRuntime.Keeps goStdlib) Sample.emptyRuntime Sample.compactSteps :=
    ⟨trivial, .inr ⟨rfl, fun _ => rfl⟩, trivial⟩
  have hfloor : ¬ (Transition.run (LifecycleRuntime.step goStdlib) Sample.emptyRuntime
      Sample.compactSteps).node.journal.floor.IsZero := by decide +kernel
  obtain ⟨c, hsnapshot, hwatermark, _⟩ := served_floor goStdlib_lawful
    Sample.emptyRuntime_open hkeeps hfloor
  exact ⟨c, hsnapshot, hwatermark⟩

/-- The first snapshot moves the floor, and leaves the runtime without a checkpoint for
the next peer. -/
theorem floor_unserved :
    let now := Transition.run (LifecycleRuntime.step goStdlib) Sample.emptyRuntime
      Sample.snapshotSteps
    now.node.journal.floor = Sample.first.version ∧ now.snapshot.isNone = true ∧
      ((now.attachPeer goStdlib "peer" (ascii "peer") [lifecycleCapabilityV1] 0).sessions
        "peer").map (fun session => RepairCoordinator.plan goStdlib Oracle.none now.node
          session.peerID session.snapshot) = some (.error .repairSnapshotRequired) := by
  decide +kernel

end StreamHive.Lifecycle
