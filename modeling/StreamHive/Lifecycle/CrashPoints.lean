import StreamHive.Lifecycle.LiveJournal
import StreamHive.Lifecycle.Restart

/-!
# Crashes between the two files

A compaction and the installation of a snapshot rename a new checkpoint into place and
then a new journal.  Before the first rename the directory is the old one, and behind the
second it is the new one.  In between, the checkpoint is ahead of the journal floor, and
`openLifecycleRuntime` insists that the two agree.

## Main results

* `Replacement.crash_cases` — where the crash falls, and what it leaves on the disk;
* `crash_consistency` — the directory opens again, with the state before or the state of the
  snapshot, exactly if the crash does not fall between the renames;
* `crash_between_renames` — a compaction after which the directory cannot be opened.
-/

namespace StreamHive.Lifecycle

open Verified ByteString Effect FileSystem Log

/-! ## Crash points -/

/-- The call during which the process crashes, and what the call has persisted by then. -/
structure CrashPoint where
  site : Site
  call : Call
  persisted : Nat
  deriving DecidableEq, Repr

namespace CrashPoint

def faults (p : CrashPoint) : Faults := Faults.single p.site p.call (.crash p.persisted)

/-- The crash comes behind the rename of the checkpoint, and not behind the rename of the
journal.  The runtime compacts at the last version only, so the new journal has no entries
to write. -/
def BetweenRenames (p : CrashPoint) : Prop :=
  (p.site = .checkpoint ∧ p.call = .syncDirectory) ∨ (p.site = .rewrite ∧ RewriteCall 0 p.call)

variable {p : CrashPoint} {site : Site} {c : Call}

theorem faults_ne_proceed (h : p.faults site c ≠ .proceed) : p.site = site ∧ p.call = c := by
  obtain ⟨hsite, hc⟩ := Faults.single_ne_proceed h
  exact ⟨hsite.symm, hc.symm⟩

theorem faults_self (p : CrashPoint) : p.faults p.site p.call ≠ .proceed := by
  simp [faults, Faults.single, Oracle.single]

theorem BetweenRenames.entry (h : p.BetweenRenames) (op : Replacement) :
    p.faults op.entrySite c = .proceed := by
  refine Faults.single_of_ne (fun hsite => ?_) _ _ _
  rcases h with ⟨hp, _⟩ | ⟨hp, _⟩
  · rw [hp] at hsite
    cases op <;> cases hsite
  · rw [hp] at hsite
    cases op <;> cases hsite

end CrashPoint

/-- A crash leaves both files as they were, or a new checkpoint alone, or both files new. -/
theorem Replacement.crash_cases {S : Stdlib} (hS : S.Lawful) (op : Replacement) (p : CrashPoint)
    {s : OnDisk Journal} (hopen : ∃ file, s.obj.ensureOpen = .ok file)
    (hnil : (op.newLog s.obj).records = []) :
    (FS.Untouched s.fs (finalState (op.run S p.faults s)).fs ∧
        ¬(p.BetweenRenames ∧ op.Admitted S s.obj)) ∨
      (op.Admitted S s.obj ∧ ∃ fs₁,
        FS.Replaced s.fs op.checkpointPath (checkpointBytes S op.checkpoint) fs₁ ∧
          ((p.BetweenRenames ∧ FS.Untouched fs₁ (finalState (op.run S p.faults s)).fs) ∨
            (¬p.BetweenRenames ∧ FS.Replaced fs₁ s.obj.path (journalBytes S (op.newLog s.obj))
              (finalState (op.run S p.faults s)).fs))) := by
  rcases op.run_cases hS p.faults s with ⟨e, hrun, hrefused⟩ | ⟨hadmitted, file, _, hrun⟩
  · rw [hrun]
    refine .inl ⟨FS.Untouched.refl _, fun ⟨hbetween, hadmitted⟩ => ?_⟩
    exact hrefused ⟨hbetween.entry op, hadmitted, hopen⟩
  rw [hrun]
  have hafter : p.faults .checkpoint .syncDirectory = .proceed →
      (∀ c, RewriteCall 0 c → p.faults .rewrite c = .proceed) → ¬p.BetweenRenames := by
    rintro hsync hcalls (⟨hsite, hcall⟩ | ⟨hsite, hcall⟩)
    · rw [← hsite, ← hcall] at hsync
      exact p.faults_self hsync
    · have hproceed := hcalls _ hcall
      rw [← hsite] at hproceed
      exact p.faults_self hproceed
  rcases replaceFiles_cases S p.faults op.checkpointPath (checkpointBytes S op.checkpoint) file
      (op.newLog s.obj) s with ⟨e, fs', hend, huntouched, c, hc, hcrash⟩ |
    ⟨_, fs₁, hckpt, ⟨e, fs', hend, huntouched, hwhy⟩ | ⟨hsync, hcalls, _, fs', hjournal, hend⟩⟩
  · rw [hend]
    refine .inl ⟨huntouched, fun ⟨hbetween, _⟩ => ?_⟩
    obtain ⟨hsite, hcall⟩ := CrashPoint.faults_ne_proceed hcrash
    rcases hbetween with ⟨_, hsync⟩ | ⟨hrewrite, _⟩
    · rw [← hcall, hsync] at hc
      exact absurd hc (by decide)
    · rw [hsite] at hrewrite
      cases hrewrite
  · rw [hend]
    refine .inr ⟨hadmitted, fs₁, hckpt, .inl ⟨?_, huntouched⟩⟩
    rcases hwhy with hcrash | ⟨c, hc, hcrash⟩ | hnot
    · exact .inl (CrashPoint.faults_ne_proceed hcrash)
    · obtain ⟨hsite, hcall⟩ := CrashPoint.faults_ne_proceed hcrash
      rw [hnil] at hc
      exact .inr ⟨hsite, hcall ▸ hc⟩
    · rw [hnil] at hnot
      exact absurd trivial hnot
  · rw [hnil] at hcalls
    refine .inr ⟨hadmitted, fs₁, hckpt, .inr ⟨hafter hsync hcalls, ?_⟩⟩
    rcases hend with ⟨e, j', hend, _⟩ | ⟨ino, hend, _⟩
    · rw [hend]
      exact hjournal
    · rw [hend]
      exact hjournal

/-! ## Opening what is left -/

/-- Over every blob store that has lost nothing the directory can be opened, and the runtime
has the property. -/
def Recovers (S : Stdlib) (config : LifecycleConfig) (blobs : Option Blobs) (token : String)
    (peerID : Bytes) (fs : FS) (P : LifecycleRuntime → Prop) : Prop :=
  ∀ blobs', BlobsKept S blobs (some blobs') → ∀ random, ∃ r fs',
    openLifecycleRuntime S Faults.none config (some blobs') token peerID random fs =
      .ok (some r) fs' ∧ P r

section Open

variable {S : Stdlib} {config : LifecycleConfig} {blobs : Option Blobs} {token : String}
  {peerID : Bytes} {random : UInt64} {fs fs' : FS} {r r' : LifecycleRuntime} {j : Journal}
  {P : LifecycleRuntime → Prop}

theorem Recovers.exists (h : Recovers S config blobs token peerID fs P) :
    ∃ b r fs', openLifecycleRuntime S Faults.none config (some b) token peerID 0 fs =
      .ok (some r) fs' ∧ P r := by
  cases blobs with
  | some b => exact ⟨b, h b (BlobsKept.refl _ _) 0⟩
  | none =>
    refine ⟨fun _ => none, h _ ?_ 0⟩
    rintro key ⟨b, _, hb, _⟩
    cases hb

/-- The checkpoint in the file determines what is loaded. -/
theorem CheckpointFile.unique {limits : Limits} {data : Option Bytes} {base : Option Checkpoint}
    {c : Checkpoint} (h : CheckpointFile S limits data base)
    (hc : CheckpointFile S limits data (some c)) : base = some c := by
  have hok : checkpointOf S limits data = .ok c := hc
  cases base with
  | some c' =>
    have hok' : checkpointOf S limits data = .ok c' := h
    rw [hok] at hok'
    cases hok'
    rfl
  | none =>
    obtain ⟨e, herror, _⟩ := h
    rw [hok] at herror
    cases herror

/-- A directory opens only if the checkpoint in its file is the one at the journal floor. -/
theorem openLifecycleRuntime_floor (hS : S.Lawful) (hj : j.Synced S fs)
    (hwith : j.OpenedWith (config.statePath "journal") config.journalOptions)
    (hmax : j.maxBytes < maxInt64) {c : Checkpoint}
    (hc : CheckpointFile S config.recordLimits
      (fs.read (.file (config.statePath "checkpoint"))) (some c))
    (h : openLifecycleRuntime S Faults.none config blobs token peerID random fs =
      .ok (some r) fs') : c.watermark = j.floor := by
  obtain ⟨_, _, _, journal, recovery, fs₁, hjournal, authority, fs₂, hauthority,
    watermarks, fs₃, hwatermarks, found, fs₄, hfound, membership, fs₅, hmembership,
    base, fs₆, hbase, restored, fs₇, hrestore, _⟩ := openLifecycleRuntime_eq_ok.mp h
  have hreopen := openJournal_reopen (o := Faults.none .journal) (fun _ => rfl) hj hmax hwith
  rw [hjournal] at hreopen
  cases hreopen
  obtain ⟨_, rfl, _, _⟩ := openWatermarkBook_ok hwatermarks
  obtain ⟨_, rfl, hpath, hfounded⟩ := openMembershipBook_ok hfound
  obtain ⟨hframe, _⟩ := configureMembership_ok hS hfounded hmembership
  obtain ⟨rfl, hcheckpoint⟩ := loadExisting_ok hbase
  obtain ⟨_, hfloor, _⟩ := restoreCheckpoint_ok hrestore
  have hauth := (openAuthority_triple hS (Faults.none .authority) fs).ok rfl hauthority
  have hauthPath : authority.path = config.statePath "authority" := by
    rw [hauth.eq]
    rfl
  rw [hpath] at hframe
  rw [hframe.read_ne (LifecycleConfig.statePath_ne (by decide)),
    hauth.raised.framed.read_ne (hauthPath ▸ LifecycleConfig.statePath_ne (by decide))]
    at hcheckpoint
  rw [hcheckpoint.unique hc] at hfloor
  exact hfloor

/-- A directory opens only if the limit of the journal file does not overflow. -/
theorem openLifecycleRuntime_int64 (hj : j.Synced S fs)
    (hwith : j.OpenedWith (config.statePath "journal") config.journalOptions)
    (h : openLifecycleRuntime S Faults.none config blobs token peerID random fs =
      .ok (some r) fs') : j.maxBytes < maxInt64 := by
  obtain ⟨_, _, _, journal, recovery, fs₁, hjournal, _⟩ := openLifecycleRuntime_eq_ok.mp h
  exact hj.int64_of_open hwith hjournal

end Open

/-! ## The calls of the runtime -/

/-- The state is the one before; behind an installation it may be that of the snapshot. -/
def Replacement.Rebuilds (before : Store) : Replacement → Store → Prop
  | .compact _, store => store = before
  | .installSnapshot _ snapshot, store => store = before ∨ store.records = tableOf snapshot.records

theorem Replacement.rebuilds_before (op : Replacement) (store : Store) :
    op.Rebuilds store store := by
  cases op with
  | compact request => rfl
  | installSnapshot checkpointPath snapshot => exact .inl rfl

theorem Replacement.Admitted.writable {S : Stdlib} {op : Replacement} {j : Journal}
    (h : op.Admitted S j) : op.checkpoint.Writable S j.limits := by
  cases op with
  | compact request | installSnapshot checkpointPath checkpoint => exact h.2.writable

namespace LifecycleRuntime

variable {S : Stdlib} {config : LifecycleConfig} {peerID : Bytes} {token : String}
  {base : Option Checkpoint} {r : LifecycleRuntime} {op : Replacement} {p : CrashPoint}

/-- The calls of `Journal.Compact` and of `Journal.InstallSnapshot` that the runtime makes
(`compact_cases`, `Applier.applySnapshot_cases`): it compacts what it has, and installs a
snapshot when it has the blobs. -/
inductive Requests (S : Stdlib) (r : LifecycleRuntime) : Replacement → Prop
  | compact (peerWatermarks : List Version) :
      Requests S r (.compact (r.compaction peerWatermarks))
  | installSnapshot (snapshot : Checkpoint)
      (held : ∀ record ∈ snapshot.records, HoldsBlob S r.node.blobs record) :
      Requests S r (.installSnapshot r.checkpointPath snapshot)

theorem Requests.checkpointPath (h : Requests S r op) : op.checkpointPath = r.checkpointPath := by
  cases h <;> rfl

theorem Requests.newLog_nil (h : Requests S r op) : (op.newLog r.node.journal).records = [] := by
  cases h with
  | compact peerWatermarks => exact cut_records r
  | installSnapshot snapshot held => exact Segment.records_reset _

namespace Backed

variable (h : r.Backed S config peerID base)
include h

/-- Nothing but the file at another path has changed. -/
theorem framed {fs' : FS}
    (hfs : FS.Framed r.node.fs (config.statePath "checkpoint") fs') {c : Checkpoint}
    (hc : CheckpointFile S config.recordLimits
      (fs'.read (.file (config.statePath "checkpoint"))) (some c)) {store : Store}
    (hcoherent : Applier.Coherent S config.recordLimits c
      { r.node.toApplier with fs := fs', store := store })
    (hheld : ∀ record ∈ c.records ++ r.node.journal.records, HoldsBlob S r.node.blobs record) :
    Backed S config peerID (some c) (r.withNode (r.node.withApplier
      { r.node.toApplier with fs := fs', store := store })) := by
  obtain ⟨version, hstored, hle⟩ := h.issued
  have hread : ∀ name, name ≠ "checkpoint" → fs'.read (.file (config.statePath name)) =
      r.node.fs.read (.file (config.statePath name)) :=
    fun name hname => hfs.read_ne (LifecycleConfig.statePath_ne hname)
  exact { h with
    journal := h.synced_of_framed hfs (by decide)
    issued := by
      refine ⟨version, hstored.of_read ?_, hle⟩
      rw [h.authorityPath]
      exact hread "authority" (by decide)
    watermarks := by
      refine h.watermarks.of_read ?_
      rw [h.watermarksPath]
      exact hread "watermarks" (by decide)
    membership := by
      refine h.membership.of_read ?_
      rw [h.membershipPath]
      exact hread "membership" (by decide)
    checkpoint := hc
    coherent := hcoherent
    held := hheld }

variable (hS : S.Lawful)
include hS

/-- The directory of a backed runtime opens again with its state, unless the limit of the
journal file overflows. -/
theorem recovers_iff_int64 (henabled : config.enabled = true)
    (hvalid : ∀ b, config.validate (some b) token peerID = .ok ())
    (hfits : config.AuthorityFits S peerID) {P : LifecycleRuntime → Prop}
    (hP : ∀ r', r'.node.store = r.node.store → P r') :
    Recovers S config r.node.blobs token peerID r.node.fs P ↔
      r.node.journal.maxBytes < maxInt64 := by
  constructor
  · intro hrecovers
    obtain ⟨_, _, _, hopen, _⟩ := hrecovers.exists
    exact openLifecycleRuntime_int64 h.journal h.opened hopen
  · intro hmax b hkept random
    obtain ⟨r', fs', hopen, _, hstore, _⟩ := h.reopen hS (F := Faults.none) (fun _ _ => rfl)
      henabled (hvalid b) hkept hmax hfits random
    exact ⟨r', fs', hopen, hP r' hstore⟩

/-- The checkpoint alone has been replaced, at the same floor, behind which the journal has
nothing. -/
theorem checkpointReplaced
    {snapshot : Checkpoint} (hwritable : snapshot.Writable S config.recordLimits)
    (hfloor : snapshot.watermark = r.node.journal.floor)
    (hfresh : r.node.journal.lastVersion ≤ snapshot.watermark)
    (hheld : ∀ record ∈ snapshot.records, HoldsBlob S r.node.blobs record) {fs' : FS}
    (hfs : FS.Replaced r.node.fs (config.statePath "checkpoint") (checkpointBytes S snapshot)
      fs') :
    Backed S config peerID (some snapshot.normal) (r.withNode (r.node.withApplier
      ((r.node.toApplier.withFS fs').replaced snapshot.records))) := by
  have hlog : r.node.journal.log = Segment.reset Record.version snapshot.watermark := by
    rw [hfloor] at hfresh ⊢
    exact r.node.journal.log.eq_reset hfresh
  have hnil : r.node.journal.records = [] := by
    show r.node.journal.log.records = []
    rw [hlog, Segment.records_reset]
  refine h.framed hfs.framed ?_ ?_ ?_
  · rw [hfs.read]
    exact checkpointFile_of_bytes hS hwritable
  · exact h.coherent.replaced (d := ⟨fs', r.node.journal⟩) hwritable.records hlog rfl
  · rw [hnil, List.append_nil]
    exact fun record hrecord => hheld record ((hwritable.records.mem_values record).mp hrecord)

/-- A checkpoint that is not the one at the journal floor keeps the directory from opening. -/
theorem not_recovers {c : Checkpoint}
    (hwritable : c.Writable S config.recordLimits) (hfloor : c.watermark ≠ r.node.journal.floor)
    {fs' : FS}
    (hfs : FS.Replaced r.node.fs (config.statePath "checkpoint") (checkpointBytes S c) fs')
    {blobs : Option Blobs} {P : LifecycleRuntime → Prop} :
    ¬Recovers S config blobs token peerID fs' P := by
  intro hrecovers
  obtain ⟨_, _, _, hopen, _⟩ := hrecovers.exists
  have hsynced := h.synced_of_framed hfs.framed (by decide)
  have hmax := openLifecycleRuntime_int64 hsynced h.opened hopen
  have hc : CheckpointFile S config.recordLimits
      (fs'.read (.file (config.statePath "checkpoint"))) (some c.normal) := by
    rw [hfs.read]
    exact checkpointFile_of_bytes hS hwritable
  have hmatch : c.normal.watermark = r.node.journal.floor :=
    openLifecycleRuntime_floor hS hsynced h.opened hmax hc hopen
  exact hfloor hmatch

variable (henabled : config.enabled = true)
  (hvalid : ∀ b, config.validate (some b) token peerID = .ok ())
  (hfits : config.AuthorityFits S peerID) (hop : Requests S r op)
  (hadmitted : op.Admitted S r.node.journal)

include henabled hvalid hfits hop hadmitted

/-- A snapshot at the journal floor leaves a good directory with its first rename. -/
theorem recovers_same_floor {fs' : FS}
    (hfs : FS.Replaced r.node.fs (config.statePath "checkpoint")
      (checkpointBytes S op.checkpoint) fs')
    (hfloor : op.checkpoint.watermark = r.node.journal.floor) :
    Recovers S config r.node.blobs token peerID fs'
        (fun r' => op.Rebuilds r.node.store r'.node.store) ↔
      r.node.journal.maxBytes < maxInt64 := by
  have hwritable := hadmitted.writable
  rw [h.journalLimits] at hwritable
  cases hop with
  | compact peerWatermarks => exact absurd hfloor (ne_of_gt hadmitted.2.above)
  | installSnapshot snapshot held =>
    have hbacked := h.checkpointReplaced hS (Checkpoint.writable_normalized.mp hwritable) hfloor
      hadmitted.2.fresh held hfs
    refine hbacked.recovers_iff_int64 hS henabled hvalid hfits fun r' hstore => .inr ?_
    rw [hstore]
    rfl

/-- Behind both renames the directory is the new one. -/
theorem recovers_after {fs₁ fs' : FS}
    (hfs₁ : FS.Replaced r.node.fs (config.statePath "checkpoint")
      (checkpointBytes S op.checkpoint) fs₁)
    (hfs : FS.Replaced fs₁ (config.statePath "journal")
      (journalBytes S (op.newLog r.node.journal)) fs') :
    Recovers S config r.node.blobs token peerID fs'
        (fun r' => op.Rebuilds r.node.store r'.node.store) ↔
      r.node.journal.maxBytes < maxInt64 := by
  have hwritable := hadmitted.writable
  rw [h.journalLimits] at hwritable
  have hwritable := Checkpoint.writable_normalized.mp hwritable
  obtain ⟨ino, hdir, _⟩ := hfs.here
  cases hop with
  | compact peerWatermarks =>
    have hbacked := h.compacted hS hwritable hfs₁ hfs hdir none
    exact hbacked.recovers_iff_int64 hS henabled hvalid hfits fun r' hstore => hstore
  | installSnapshot snapshot held =>
    have hbacked := h.snapshotInstalled hS hwritable hadmitted.2.fresh held hfs₁ hfs hdir
    refine hbacked.recovers_iff_int64 hS henabled hvalid hfits fun r' hstore => .inr ?_
    rw [hstore]
    rfl

omit hadmitted

/-- What a crash leaves behind opens again, with the state before or that of the snapshot,
unless it falls between the renames. -/
theorem recovers_iff (p : CrashPoint) :
    Recovers S config r.node.blobs token peerID
        (finalState (op.run S p.faults ⟨r.node.fs, r.node.journal⟩)).fs
        (fun r' => op.Rebuilds r.node.store r'.node.store) ↔
      r.node.journal.maxBytes < maxInt64 ∧
        ¬(p.BetweenRenames ∧ op.Admitted S r.node.journal ∧
          op.checkpoint.watermark ≠ r.node.journal.floor) := by
  obtain ⟨ino, hopen, _⟩ := h.journal.ensureOpen
  have hpath : op.checkpointPath = config.statePath "checkpoint" :=
    hop.checkpointPath.trans h.checkpointPath
  rcases op.crash_cases hS p (s := ⟨r.node.fs, r.node.journal⟩) ⟨_, hopen⟩ hop.newLog_nil with
    ⟨huntouched, hnot⟩ | ⟨hadmitted, fs₁, hckpt, ⟨hbetween, huntouched⟩ | ⟨hafter, hjournal⟩⟩
  · have hbacked := h.untouched huntouched
    refine (hbacked.recovers_iff_int64 hS henabled hvalid hfits fun r' hstore => ?_).trans ?_
    · rw [hstore]
      exact op.rebuilds_before _
    · exact (and_iff_left fun hbad => hnot ⟨hbad.1, hbad.2.1⟩).symm
  · have hfs := hckpt.trans_untouched huntouched
    rw [hpath] at hfs
    by_cases hfloor : op.checkpoint.watermark = r.node.journal.floor
    · refine (h.recovers_same_floor hS henabled hvalid hfits hop hadmitted hfs hfloor).trans ?_
      exact (and_iff_left fun hbad => hbad.2.2 hfloor).symm
    · have hwritable := hadmitted.writable
      rw [show (OnDisk.mk r.node.fs r.node.journal).obj.limits = _ from h.journalLimits]
        at hwritable
      exact iff_of_false
        (h.not_recovers hS (Checkpoint.writable_normalized.mp hwritable) hfloor hfs)
        fun hgood => hgood.2 ⟨hbetween, hadmitted, hfloor⟩
  · rw [hpath] at hckpt
    rw [show (OnDisk.mk r.node.fs r.node.journal).obj.path = _ from h.opened.path] at hjournal
    refine (h.recovers_after hS henabled hvalid hfits hop hadmitted hckpt hjournal).trans ?_
    exact (and_iff_left fun hbad => hafter hbad.1).symm

end Backed

/-- The limit of the journal is the configured one. -/
theorem Backed.maxBytes_lt_iff (h : r.Backed S config peerID base) :
    r.node.journal.maxBytes < maxInt64 ↔ config.journalLimits.maxJournalBytes < maxInt64 := by
  obtain ⟨n, hn, _, hbytes, _⟩ := h.opened.options
  rw [hbytes, (JournalOptions.normalized_fields hn).2]
  unfold orDefault
  split
  · next hdefault =>
      have hlt : config.journalOptions.maxJournalBytes < maxInt64 :=
        lt_of_le_of_lt hdefault (by decide)
      exact iff_of_true (by decide) hlt
  · exact Iff.rfl

end LifecycleRuntime

/-- In every state that an opened runtime reaches, and for every point at which a compaction
or the installation of a snapshot crashes: the directory opens again with the state before,
or with that of the snapshot, exactly if the journal limit is below the largest `int64` and
the crash does not fall between the two renames of a call that passes its checks and moves
the floor. -/
theorem crash_consistency {S : Stdlib} (hS : S.Lawful) {F : Faults} {config : LifecycleConfig}
    {blobs : Option Blobs} {token : String} {peerID : Bytes} {random : UInt64} {fs fs' : FS}
    {start : LifecycleRuntime}
    (hopen : openLifecycleRuntime S F config blobs token peerID random fs =
      .ok (some start) fs')
    {steps : List RuntimeStep}
    (hcalm : Transition.Along (LifecycleRuntime.step S) (LifecycleRuntime.Calm S) start steps)
    (hctx : ∀ step ∈ steps, LifecycleRuntime.Uncanceled step.faults)
    (hfits : config.AuthorityFits S peerID) :
    let now := Transition.run (LifecycleRuntime.step S) start steps
    ∀ op, now.Requests S op → ∀ p : CrashPoint,
      (Recovers S config now.node.blobs token peerID
          (finalState (op.run S p.faults ⟨now.node.fs, now.node.journal⟩)).fs
          (fun r => op.Rebuilds now.node.store r.node.store) ↔
        config.journalLimits.maxJournalBytes < maxInt64 ∧
          ¬(p.BetweenRenames ∧ op.Admitted S now.node.journal ∧
            op.checkpoint.watermark ≠ now.node.journal.floor)) := by
  intro now op hop p
  obtain ⟨_, _, hstart⟩ := openLifecycleRuntime_backed hS hopen
  obtain ⟨base, hbacked⟩ : ∃ base, now.Backed S config peerID base :=
    hstart.run hS hfits hcalm hctx
  obtain ⟨henabled, hvalid, _⟩ := openLifecycleRuntime_eq_ok.mp hopen
  obtain ⟨b, rfl⟩ := LifecycleConfig.validate_blobs henabled hvalid
  rw [← hbacked.maxBytes_lt_iff]
  exact hbacked.recovers_iff hS henabled (fun _ => hvalid) hfits hop p

namespace Sample

/-- A checkpoint without records. -/
def emptySnapshot : Checkpoint := ⟨⟨1, 1⟩, []⟩

/-- The installation of the checkpoint in a new runtime, and a crash in it. -/
def crashedInstall (p : CrashPoint) : EStateM.Result Error (OnDisk Journal) Unit :=
  Journal.installSnapshot goStdlib p.faults emptyRuntime.checkpointPath emptySnapshot
    ⟨emptyRuntime.node.fs, emptyRuntime.node.journal⟩

end Sample

/-- A crash at the rename of the journal: the checkpoint is ahead of the floor, and the
directory cannot be opened. -/
theorem crash_between_renames :
    error? (Sample.crashedInstall ⟨.rewrite, .rename, 0⟩) = some .crash ∧
      error? (Sample.openOn (Sample.config RepairLimits.unset)
        (finalState (Sample.crashedInstall ⟨.rewrite, .rename, 0⟩)).fs) =
        some (.checkpointFloorMismatch ⟨1, 1⟩ Version.zero) :=
  ⟨by decide +kernel, by decide +kernel⟩

/-- After a deletion, a crash of the compaction behind the rename of the journal: the
directory opens again with the deleted record. -/
theorem crash_consistency_sample :
    let now := Transition.run (LifecycleRuntime.step goStdlib) Sample.emptyRuntime
      [Sample.deleteKey "a"]
    let left := (Replacement.compact (now.compaction [])).run goStdlib
      (CrashPoint.faults ⟨.rewrite, .syncDirectory, 0⟩) ⟨now.node.fs, now.node.journal⟩
    error? left = some .crash ∧ now.node.store.snapshot.length = 1 ∧
      Recovers goStdlib (Sample.config RepairLimits.unset) now.node.blobs "token" (ascii "node")
        (finalState left).fs fun r => r.node.store = now.node.store := by
  refine ⟨by decide +kernel, by decide +kernel, ?_⟩
  refine (crash_consistency goStdlib_lawful Sample.emptyRuntime_open Sample.deleteKey_calm
    Sample.deleteKey_uncanceled (Sample.authorityFits _) _ (.compact [])
    ⟨.rewrite, .syncDirectory, 0⟩).mpr ⟨by decide, ?_⟩
  rintro ⟨⟨hsite, _⟩ | ⟨_, hcall⟩, _⟩
  · cases hsite
  · exact hcall

end StreamHive.Lifecycle
