import StreamHive.Lifecycle.ServedFloor

/-!
# Restarts

While the disk works and no blob is removed, a runtime stays backed by its directory:
every call that changes a file changes the memory with it.  There are two exceptions,
and both need a context that is canceled at the wrong time.  A compaction or an
installed snapshot replaces the checkpoint and then the journal, and may be canceled
between the two; and an allocated version is taken in memory before it is written.

## Main results

* `LifecycleRuntime.Backed.step` — a step without such a cancellation keeps the runtime
  backed;
* `restart_transparent` — closing and opening again gives the same state;
* `restart_fails` — two runs after which the directory cannot be opened: a compaction
  canceled between the files, and a journal limit that is the largest `int64`.
-/

namespace StreamHive.Lifecycle

open Verified ByteString Effect FileSystem Log

variable {fs' : FS} {ino : Nat}

/-! ## A replaced journal -/

/-- The journal behind a replacement, whose new file was found to fit. -/
theorem Journal.Synced.rewritten {S : Stdlib} (hS : S.Lawful) {fs fs₁ : FS} {j : Journal}
    (h : j.Synced S fs) {log : JournalLog} (hvalid : ∀ r ∈ log.records, r.Valid S j.limits)
    (hentries : log.records.length ≤ j.log.records.length)
    (hfits : Fits S j.maxBytes journalHeaderBytes log.records)
    (hfs : FS.Replaced fs₁ j.path (journalBytes S log) fs')
    (hdir : fs'.dir (.file j.path) = some ino) :
    (j.adopted ino (journalBytes S log).length log).Synced S fs' := by
  have hlength := length_journalBytes S log
  have hcontent : fs'.content ino = journalBytes S log := by
    obtain ⟨i, hi, _, hdata⟩ := hfs.here
    rw [hdir] at hi
    cases hi
    exact hdata
  have hheader := h.header_le
  have hbytes := h.bytes
  have hcount := h.entries
  constructor
  case opened => exact h.opened
  case named => exact h.named
  case held =>
    refine ⟨ino, rfl, hdir, ?_, ?_⟩
    · rw [hcontent]
      exact parses_journalBytes hS h.limits hvalid
    · rw [hcontent]
      rfl
  case bytes =>
    show ((journalBytes S log).length : Int) ≤ j.maxBytes
    have hall := hfits.bytes (by omega)
    omega
  case entries =>
    show (log.records.length : Int) ≤ j.maxEntries
    omega
  case limits => exact h.limits
  case int64 => exact h.int64

/-- The journal behind a replacement that keeps no record. -/
theorem Journal.Synced.adopted {S : Stdlib} (hS : S.Lawful) {fs fs₁ : FS} {j : Journal}
    (h : j.Synced S fs) {log : JournalLog} (hnil : log.records = [])
    (hfs : FS.Replaced fs₁ j.path (journalBytes S log) fs')
    (hdir : fs'.dir (.file j.path) = some ino) :
    (j.adopted ino (journalBytes S log).length log).Synced S fs' := by
  refine h.rewritten hS ?_ ?_ ?_ hfs hdir
  · rw [hnil]
    simp
  · rw [hnil]
    exact Nat.zero_le _
  · rw [hnil]
    trivial

theorem Applier.Coherent.withFS {S : Stdlib} {limits : Limits} {base : Checkpoint}
    {a : Applier} (h : a.Coherent S limits base) (fs : FS) :
    (a.withFS fs).Coherent S limits base :=
  ⟨⟨h.shared.own, h.shared.store, h.shared.journal⟩, h.floor, h.listed, h.valid, h.table⟩

namespace LifecycleRuntime

variable {S : Stdlib} {F : Faults} {config : LifecycleConfig} {peerID : Bytes}
  {base : Option Checkpoint} {r r' : LifecycleRuntime}

namespace Backed

variable (h : r.Backed S config peerID base)
include h

theorem authorityPath :
    r.authority.path = config.statePath "authority" := by
  rw [h.authority]
  rfl

theorem printable :
    S.isPrintable r.authority.authorityID = true := by
  rw [h.authority]
  exact validateAuthorityID_printable h.identified

/-! ## Small moves -/

/-- The contents of the blob store have grown. -/
theorem withBlobs {blobs : Option Blobs} (hblobs : BlobsKept S r.node.blobs blobs) :
    Backed S config peerID base (r.withNode (r.node.withApplier
      (r.node.toApplier.withBlobs blobs))) :=
  { h with
    coherent := h.coherent.withBlobs blobs
    held := fun record hrecord => (h.held record hrecord).kept hblobs }

/-- Nothing but temporary files has changed. -/
theorem untouched (hfs : FS.Untouched r.node.fs fs') :
    Backed S config peerID base (r.withJournal ⟨fs', r.node.journal⟩) := by
  obtain ⟨version, hstored, hle⟩ := h.issued
  exact { h with
    journal := h.journal.of_untouched hfs
    issued := ⟨version, hstored.of_read (hfs.read _), hle⟩
    watermarks := h.watermarks.of_read (hfs.read _)
    membership := h.membership.of_read (hfs.read _)
    checkpoint := by
      show CheckpointFile S config.recordLimits (fs'.read _) base
      rw [hfs.read]
      exact h.checkpoint
    coherent := h.coherent.withFS fs' }

/-- A record has been appended. -/
theorem extended (hS : S.Lawful) {record : Record} (hacc : r.node.journal.Accepts S record)
    (hopen : r.node.journal.ensureOpen = .ok ⟨ino, false⟩)
    (hholds : HoldsBlob S r.node.blobs record) :
    Backed S config peerID base (r.withNode (r.node.withApplier
      (r.node.toApplier.extended S record ino hacc.newer))) := by
  obtain ⟨version, hstored, hle⟩ := h.issued
  obtain ⟨ino', hopen', hdir⟩ := h.journal.ensureOpen
  have hino : ino' = ino := by
    have hsame := hopen'.symm.trans hopen
    cases hsame
    rfl
  rw [hino, h.opened.path] at hdir
  have hread : ∀ name, name ≠ "journal" →
      (r.node.fs.extend ino (journalEntry S record)).read (.file (config.statePath name)) =
        r.node.fs.read (.file (config.statePath name)) := by
    intro name hname
    refine FS.read_store_ne hdir ?_ _
    simpa using LifecycleConfig.statePath_ne (c := config) hname
  constructor
  case journal => exact h.journal.appended hS hacc hopen
  case opened => exact ⟨h.opened.path, h.opened.options⟩
  case authority => exact h.authority
  case identified => exact h.identified
  case epoch => exact h.epoch
  case issued =>
    refine ⟨version, hstored.of_read ?_, hle.trans (max_le_max le_rfl ?_)⟩
    · rw [h.authorityPath]
      exact hread "authority" (by decide)
    · show r.node.journal.lastVersion ≤ (r.node.journal.log.append record hacc.newer).last
      rw [Segment.last_append]
      exact le_of_lt hacc.newer
  case watermarks =>
    refine h.watermarks.of_read ?_
    rw [h.watermarksPath]
    exact hread "watermarks" (by decide)
  case watermarksPath => exact h.watermarksPath
  case membership =>
    refine h.membership.of_read ?_
    rw [h.membershipPath]
    exact hread "membership" (by decide)
  case membershipPath => exact h.membershipPath
  case configured => exact h.configured
  case checkpoint =>
    show CheckpointFile S config.recordLimits
      ((r.node.fs.extend ino (journalEntry S record)).read _) base
    rw [hread "checkpoint" (by decide)]
    exact h.checkpoint
  case checkpointPath => exact h.checkpointPath
  case coherent => exact h.coherent.published hacc rfl
  case held =>
    intro rec hrec
    have hmem : rec ∈ (baseline base).records ++ (r.node.journal.records ++ [record]) := hrec
    rw [← List.append_assoc] at hmem
    rcases List.mem_append.mp hmem with hin | hin
    · exact h.held rec hin
    · rw [List.mem_singleton.mp hin]
      exact hholds
  case sessions => exact h.sessions


/-- The journal's file is not the one that has been written. -/
theorem synced_of_framed {name : String}
    (hfs : FS.Framed r.node.fs (config.statePath name) fs') (hname : "journal" ≠ name) :
    r.node.journal.Synced S fs' :=
  h.journal.of_framed hfs (h.opened.path ▸ LifecycleConfig.statePath_ne hname)

/-- A new watermark map has been saved. -/
theorem saved (hS : S.Lawful) {d : OnDisk WatermarkBook} {next : WatermarkMap}
    (hsaved : WatermarkBook.Saved S ⟨r.node.fs, r.node.watermarks⟩ next d)
    (hvalid : r.node.watermarks.ValidMap S next) :
    Backed S config peerID base (r.withNode (r.node.withBook d)) := by
  obtain ⟨version, hstored, hle⟩ := h.issued
  have hfs : FS.Framed r.node.fs (config.statePath "watermarks") d.fs := by
    rw [← h.watermarksPath]
    rcases hsaved.file with ⟨hsame, _⟩ | ⟨_, hreplaced⟩
    · rw [hsame]
      exact (FS.Untouched.refl _).framed _
    · exact hreplaced.framed
  have hread : ∀ name, name ≠ "watermarks" → d.fs.read (.file (config.statePath name)) =
      r.node.fs.read (.file (config.statePath name)) :=
    fun name hname => hfs.read_ne (LifecycleConfig.statePath_ne hname)
  exact { h with
    journal := h.synced_of_framed hfs (by decide)
    issued := by
      refine ⟨version, hstored.of_read ?_, hle⟩
      rw [h.authorityPath]
      exact hread "authority" (by decide)
    watermarks := hsaved.durable hS h.watermarks hvalid
    watermarksPath := hsaved.path.trans h.watermarksPath
    membership := by
      refine h.membership.of_read ?_
      rw [h.membershipPath]
      exact hread "membership" (by decide)
    checkpoint := by
      show CheckpointFile S config.recordLimits (d.fs.read _) base
      rw [hread "checkpoint" (by decide)]
      exact h.checkpoint
    coherent := h.coherent.withFS d.fs }

/-- What a call of the book comes to when the disk works. -/
theorem onBook (hS : S.Lawful) (hF : F.Soft) {accepted : Prop} {next : WatermarkMap}
    {result : EStateM.Result Error (OnDisk WatermarkBook) Unit}
    (hresult : WatermarkBook.Outcome S F accepted next ⟨r.node.fs, r.node.watermarks⟩ result)
    (hvalid : accepted → r.node.watermarks.ValidMap S next) :
    Backed S config peerID base (r.withNode (r.node.withBook (finalState result))) := by
  rcases hresult with ⟨e, fs', rfl, hrefused⟩ | ⟨d, rfl, haccepted, hsaved⟩
  · exact h.untouched (hrefused hF).1
  · exact h.saved hS hsaved (hvalid haccepted)

/-- The allocator has another version, which is behind what it would find on disk. -/
theorem withVersion {d : OnDisk Authority} {v : Version}
    (hobj : d.obj = r.authority.withVersion v) (hepoch : v.epoch ≠ 0)
    (hfs : FS.Framed r.node.fs (config.statePath "authority") d.fs)
    (hissued : ∃ version, r.authority.Stored S d.fs version ∧
      v ≤ max version r.node.journal.lastVersion) :
    Backed S config peerID base (r.withAuthority d) := by
  have hread : ∀ name, name ≠ "authority" → d.fs.read (.file (config.statePath name)) =
      r.node.fs.read (.file (config.statePath name)) :=
    fun name hname => hfs.read_ne (LifecycleConfig.statePath_ne hname)
  have hcurrent : d.obj.current = v := by rw [hobj]; rfl
  exact { h with
    journal := h.synced_of_framed hfs (by decide)
    authority := by
      show d.obj = (Authority.new (config.statePath "authority") peerID
        ⟨config.recordLimits, 0, Version.zero⟩).withVersion d.obj.current
      rw [hcurrent, hobj, h.authority]
      rfl
    epoch := by
      show d.obj.current.epoch ≠ 0
      rw [hcurrent]
      exact hepoch
    issued := by
      obtain ⟨version, hstored, hle⟩ := hissued
      refine ⟨version, ?_, ?_⟩
      · show d.obj.Stored S d.fs version
        rw [hobj]
        exact hstored.withVersion v
      · show d.obj.current ≤ _
        rw [hcurrent]
        exact hle
    watermarks := by
      refine h.watermarks.of_read ?_
      rw [h.watermarksPath]
      exact hread "watermarks" (by decide)
    membership := by
      refine h.membership.of_read ?_
      rw [h.membershipPath]
      exact hread "membership" (by decide)
    checkpoint := by
      show CheckpointFile S config.recordLimits (d.fs.read _) base
      rw [hread "checkpoint" (by decide)]
      exact h.checkpoint
    coherent := h.coherent.withFS d.fs }

/-- An allocation that is not canceled between the memory and the file. -/
theorem next (hS : S.Lawful) (hF : F.Soft) (hfits : config.AuthorityFits S peerID)
    (hctx : ∀ i < 2, F .authority (.ctxErr i) = .proceed) :
    Backed S config peerID base (r.withAuthority (finalState (Authority.next S (F .authority)
      r.node.journal.lastVersion ⟨r.node.fs, r.authority⟩))) := by
  obtain ⟨version, hstored, hle⟩ := h.issued
  rcases Authority.next_spec (S := S) (F .authority) r.node.journal.lastVersion
    ⟨r.node.fs, r.authority⟩ with ⟨e, d, v, hrun, hobj, _, hepoch, _, hsoft⟩ |
    ⟨v, d, hrun, hobj, hincrement, hwrote⟩
  · rw [hrun]
    obtain ⟨hfs, hbound⟩ := hsoft (hF .authority)
    have hv : v ≤ max r.authority.current r.node.journal.lastVersion := by
      refine hbound.resolve_right ?_
      rintro (hnot | ⟨i, hi, hcanceled⟩)
      · refine hnot ?_
        show r.authority.Fits S
        rw [h.authority]
        exact hfits
      · exact hcanceled (hctx i hi)
    refine h.withVersion hobj (hepoch h.epoch) (hfs.framed _) ⟨version, ?_, ?_⟩
    · exact hstored.of_read (hfs.read _)
    · exact hv.trans (max_le hle (le_max_right _ _))
  · rw [hrun]
    have hpositive := (Authority.incrementAuthorityVersion_ok hincrement).2
    have hfs : FS.Framed r.node.fs (config.statePath "authority") d.fs :=
      h.authorityPath ▸ hwrote.replaced.framed
    exact h.withVersion hobj hpositive hfs ⟨v, Authority.stored_of_replaced hS h.printable
      hpositive hwrote.fits hwrote.replaced, le_max_left _ _⟩

/-- A session has changed, but for its checkpoint file. -/
theorem withSession {key : String} {session : RepairSession}
    (hpath : session.checkpointPath = config.statePath "checkpoint") :
    Backed S config peerID base (r.withSession key session) :=
  { h with
    sessions := sessions_update h.sessions fun _ hnew => Option.some.inj hnew ▸ hpath }

end Backed

/-- No context is canceled while a version is on its way to its file, or between the
checkpoint and the journal. -/
structure Uncanceled (F : Faults) : Prop where
  authority : ∀ i < 2, F .authority (.ctxErr i) = .proceed
  rewrite : ∀ i, F .rewrite (.ctxErr i) = .proceed

theorem Move.backed (hS : S.Lawful) (hF : F.Soft) (hctx : Uncanceled F)
    (hfits : config.AuthorityFits S peerID) (hmove : Move S F r r')
    (h : r.Backed S config peerID base) : r'.Backed S config peerID base := by
  cases hmove with
  | node hnode =>
    cases hnode with
    | apply i capabilities record suppliedBlob =>
      rcases Applier.apply_soft S hF i capabilities record suppliedBlob
        r.node.toApplier with ⟨e, blobs', hrun, hkept⟩ | ⟨result, hrun, _, _⟩ |
        ⟨result, blobs', ino, hacc, _, _, hkept, hholds, hopen, hrun⟩
      · rw [hrun]
        exact h.withBlobs hkept
      · rw [hrun]
        exact h
      · rw [hrun]
        exact (h.withBlobs hkept).extended hS hacc hopen hholds
    | acknowledge peer version =>
      exact h.onBook hS hF (RepairCoordinator.acknowledge_spec F _ peer version _)
        fun hacc => h.watermarks.valid.acknowledged hacc.2
    | reconcile peer version =>
      exact h.onBook hS hF (RepairCoordinator.reconcile_spec F _ peer version _)
        fun hacc => h.watermarks.valid.reconciled hacc.2
  | next => exact h.next hS hF hfits hctx.authority
  | session hsession hello =>
    have hpath := h.sessions _ _ hsession
    exact h.withSession hpath

theorem Moves.backed (hS : S.Lawful) (hF : F.Soft) (hctx : Uncanceled F)
    (hfits : config.AuthorityFits S peerID) (hmoves : Moves S F r r')
    (h : r.Backed S config peerID base) : r'.Backed S config peerID base := by
  induction hmoves with
  | refl => exact h
  | tail _ hmove ih => exact hmove.backed hS hF hctx hfits ih

/-! ## Replacements -/

namespace Backed

variable (h : r.Backed S config peerID base)
include h

/-- Both files have been replaced, and the journal keeps no record. -/
theorem replaced (hS : S.Lawful) {c : Checkpoint}
    (hwritable : c.Writable S config.recordLimits) {fs₁ : FS}
    (hfs₁ : FS.Replaced r.node.fs (config.statePath "checkpoint") (checkpointBytes S c) fs₁)
    {log : JournalLog} (hnil : log.records = [])
    (hfs : FS.Replaced fs₁ (config.statePath "journal") (journalBytes S log) fs')
    (hdir : fs'.dir (.file (config.statePath "journal")) = some ino)
    (hlast : r.node.journal.lastVersion ≤ log.last) {a : Applier} (hfsEq : a.fs = fs')
    (hjournal : a.journal = r.node.journal.adopted ino (journalBytes S log).length log)
    (hcoherent : a.Coherent S config.recordLimits c.normal) (hblobs : a.blobs = r.node.blobs)
    (hheld : ∀ record ∈ c.records, HoldsBlob S r.node.blobs record)
    (snapshot : Option Checkpoint) : Backed S config peerID (some c.normal)
      { r.withNode (r.node.withApplier a) with snapshot := snapshot } := by
  obtain ⟨version, hstored, hle⟩ := h.issued
  have hread : ∀ name, name ≠ "checkpoint" → name ≠ "journal" →
      a.fs.read (.file (config.statePath name)) =
        r.node.fs.read (.file (config.statePath name)) := by
    intro name hc hj
    rw [hfsEq, hfs.read_ne (LifecycleConfig.statePath_ne hj),
      hfs₁.read_ne (LifecycleConfig.statePath_ne hc)]
  constructor
  case journal =>
    show a.journal.Synced S a.fs
    rw [hjournal, hfsEq]
    exact h.journal.adopted hS hnil (h.opened.path ▸ hfs) (h.opened.path ▸ hdir)
  case opened =>
    show a.journal.OpenedWith _ _
    rw [hjournal]
    exact ⟨h.opened.path, h.opened.options⟩
  case authority => exact h.authority
  case identified => exact h.identified
  case epoch => exact h.epoch
  case issued =>
    refine ⟨version, hstored.of_read ?_, hle.trans (max_le_max le_rfl ?_)⟩
    · rw [h.authorityPath]
      exact hread "authority" (by decide) (by decide)
    · show r.node.journal.lastVersion ≤ a.journal.lastVersion
      rw [hjournal]
      exact hlast
  case watermarks =>
    refine h.watermarks.of_read ?_
    rw [h.watermarksPath]
    exact hread "watermarks" (by decide) (by decide)
  case watermarksPath => exact h.watermarksPath
  case membership =>
    refine h.membership.of_read ?_
    rw [h.membershipPath]
    exact hread "membership" (by decide) (by decide)
  case membershipPath => exact h.membershipPath
  case configured => exact h.configured
  case checkpoint =>
    show CheckpointFile S config.recordLimits (a.fs.read _) (some c.normal)
    rw [hfsEq, hfs.read_ne (LifecycleConfig.statePath_ne (by decide)), hfs₁.read]
    exact checkpointFile_of_bytes hS hwritable
  case checkpointPath => exact h.checkpointPath
  case coherent => exact hcoherent
  case held =>
    intro record hrecord
    have hmem : record ∈ c.normal.records ++ a.journal.records := hrecord
    have hrecords : a.journal.records = [] := by rw [hjournal]; exact hnil
    rw [hrecords, List.append_nil] at hmem
    show HoldsBlob S a.blobs record
    rw [hblobs]
    exact hheld record ((hwritable.records.mem_values record).mp hmem)
  case sessions => exact h.sessions

/-- The blobs of the state are there. -/
theorem holds_snapshot :
    ∀ record ∈ r.node.store.snapshot, HoldsBlob S r.node.blobs record := by
  intro record hrecord
  have htable : r.node.store.records =
      tableOf ((baseline base).records ++ r.node.journal.records) := h.coherent.table
  unfold Store.snapshot at hrecord
  rw [htable] at hrecord
  exact h.held record (KeyedMap.values_view_subset hrecord)

theorem journalLimits :
    r.node.journal.limits = config.recordLimits.normalized := h.coherent.shared.journal

/-- A compaction has replaced both files. -/
theorem compacted (hS : S.Lawful)
    (hwritable : r.nextCheckpoint.Writable S config.recordLimits) {fs₁ : FS}
    (hfs₁ : FS.Replaced r.node.fs (config.statePath "checkpoint")
      (checkpointBytes S r.nextCheckpoint) fs₁)
    (hfs : FS.Replaced fs₁ (config.statePath "journal")
      (journalBytes S (r.node.journal.log.cut r.node.journal.lastVersion)) fs')
    (hdir : fs'.dir (.file (config.statePath "journal")) = some ino)
    (snapshot : Option Checkpoint) : Backed S config peerID (some r.nextCheckpoint)
      { r.withJournal ⟨fs', r.node.journal.adopted ino (journalBytes S
          (r.node.journal.log.cut r.node.journal.lastVersion)).length
          (r.node.journal.log.cut r.node.journal.lastVersion)⟩ with snapshot := snapshot } := by
  have hshared := h.coherent.shared
  have hlast : r.node.journal.lastVersion ≤
      (r.node.journal.log.cut r.node.journal.lastVersion).last :=
    le_of_eq (r.node.journal.log.last_cut r.node.journal.log.floor_le_last le_rfl).symm
  rw [← nextCheckpoint_normal]
  refine h.replaced (a := r.node.toApplier.withJournal ⟨fs', _⟩) hS hwritable hfs₁
    (cut_records r) hfs hdir hlast rfl rfl ?_ rfl h.holds_snapshot snapshot
  constructor
  case shared => exact ⟨hshared.own, hshared.store, hshared.journal⟩
  case floor => rfl
  case listed => exact hwritable.records.values
  case valid =>
    intro record hrecord
    have hmem : record ∈ (r.node.journal.log.cut r.node.journal.lastVersion).records :=
      hrecord
    rw [cut_records] at hmem
    cases hmem
  case table =>
    show r.node.store.records = tableOf (r.nextCheckpoint.normal.records ++
      (r.node.journal.log.cut r.node.journal.lastVersion).records)
    rw [cut_records, List.append_nil, Checkpoint.tableOf_normal]
    exact (KeyedMap.putAll_values _).symm

/-- A snapshot has replaced both files. -/
theorem snapshotInstalled (hS : S.Lawful)
    {snapshot : Checkpoint} (hwritable : snapshot.Writable S config.recordLimits)
    (hfresh : r.node.journal.lastVersion ≤ snapshot.watermark)
    (hheld : ∀ record ∈ snapshot.records, HoldsBlob S r.node.blobs record) {fs₁ : FS}
    (hfs₁ : FS.Replaced r.node.fs (config.statePath "checkpoint")
      (checkpointBytes S snapshot) fs₁) (hfs : FS.Replaced fs₁ (config.statePath "journal")
      (journalBytes S (Segment.reset Record.version snapshot.watermark)) fs')
    (hdir : fs'.dir (.file (config.statePath "journal")) = some ino) :
    Backed S config peerID (some snapshot.normal) (r.withNode (r.node.withApplier
      (r.node.toApplier.installed S fs' ino snapshot))) := by
  have hlast : r.node.journal.lastVersion ≤
      (Segment.reset Record.version snapshot.watermark).last := hfresh
  exact h.replaced hS hwritable hfs₁ (Segment.records_reset _) hfs hdir hlast rfl rfl
    (h.coherent.replaced hwritable.records rfl rfl) rfl hheld r.snapshot

theorem compact (hS : S.Lawful) (hF : F.Soft) (hctx : Uncanceled F) :
    ∃ base', (finalState (LifecycleRuntime.compact S F r)).Backed S config peerID base' := by
  rcases compact_replaces hS F r with ⟨e, hrun⟩ | ⟨file, hc⟩
  · rw [hrun]
    exact ⟨base, h⟩
  obtain ⟨ino₀, hopen₀, _⟩ := h.journal.ensureOpen
  have hfile : file.closed = false := by
    have hsame := hc.opened.symm.trans hopen₀
    cases hsame
    rfl
  rcases replaceFiles_soft S hF r.checkpointPath (checkpointBytes S r.nextCheckpoint) hfile
    (r.node.journal.log.cut r.node.journal.lastVersion) ⟨r.node.fs, r.node.journal⟩ with
    ⟨e, fs', hreplace, hfs⟩ | ⟨fs₁, hfs₁, ⟨e, fs', _, _, hwhy⟩ |
    ⟨fs', ino, hreplace, hfs, hdir, _⟩⟩
  · rw [hc.error hreplace]
    exact ⟨base, h.untouched hfs⟩
  · rcases hwhy with ⟨i, _, hcanceled⟩ | hnot
    · exact absurd (hctx.rewrite i) hcanceled
    · rw [cut_records] at hnot
      exact absurd trivial hnot
  · have hwritable := hc.writable
    rw [h.journalLimits] at hwritable
    rw [h.checkpointPath] at hfs₁
    rw [show (OnDisk.mk r.node.fs r.node.journal).obj.path = _ from h.opened.path] at hfs hdir
    rw [hc.ok hreplace]
    exact ⟨_, h.compacted hS (Checkpoint.writable_normalized.mp hwritable) hfs₁ hfs hdir _⟩

theorem installed (hS : S.Lawful) (hF : F.Soft) (hctx : Uncanceled F) {key : String}
    {session : RepairSession} (hsession : r.sessions key = some session)
    (snapshot : RepairSnapshot) :
    ∃ base', (r.installed S F session snapshot).Backed S config peerID base' := by
  obtain ⟨ino₀, hopen₀, _⟩ := h.journal.ensureOpen
  unfold LifecycleRuntime.installed SessionState.installed
  rcases Applier.applySnapshot_soft hS hF session.capabilities
    ⟨snapshot.watermark, snapshot.records⟩ session.checkpointPath h.coherent.shared
    ⟨ino₀, hopen₀⟩ with ⟨e, fs', hrun, hfs⟩ | ⟨hheld, hinstallable, fs₁, hfs₁, hend⟩
  · rw [hrun]
    exact ⟨base, h.untouched hfs⟩
  rcases hend with ⟨e, fs', _, _, i, _, hcanceled⟩ | ⟨fs', ino, hrun, hfs, hdir⟩
  · exact absurd (hctx.rewrite i) hcanceled
  · rw [hrun]
    have hwritable := hinstallable.writable
    rw [show r.node.toApplier.journal.limits = _ from h.journalLimits] at hwritable
    rw [h.sessions key session hsession] at hfs₁
    rw [show r.node.toApplier.journal.path = _ from h.opened.path] at hfs hdir
    exact ⟨_, h.snapshotInstalled hS (Checkpoint.writable_normalized.mp hwritable)
      hinstallable.fresh hheld hfs₁ hfs hdir⟩

theorem handleFrame (hS : S.Lawful) (hF : F.Soft) (hctx : Uncanceled F)
    (hfits : config.AuthorityFits S peerID) (key : String) (payload : Bytes) :
    ∃ base', (finalState (LifecycleRuntime.handleFrame S F key payload r)).Backed S config
      peerID base' := by
  rcases handleFrame_moves (S := S) (F := F) key payload r with hmoves |
    ⟨session, snapshot, hsession, _, hmoves⟩
  · exact ⟨base, hmoves.backed hS hF hctx hfits h⟩
  · obtain ⟨base', hinstalled⟩ := h.installed hS hF hctx hsession snapshot
    exact ⟨base', hmoves.backed hS hF hctx hfits hinstalled⟩

/-! ## Steps -/

theorem attachPeer (key : String) (remoteID : Bytes)
    (capabilities : List String) (maxFrameBytes : Int) :
    (r.attachPeer S key remoteID capabilities maxFrameBytes).Backed S config peerID base := by
  rcases attachPeer_cases S r key remoteID capabilities maxFrameBytes with
    hsame | ⟨session, _, _, hpath, hnew⟩
  · exact hsame.symm ▸ h
  · rw [hnew]
    exact h.withSession (hpath.trans h.checkpointPath)

theorem forgetPeer (key : String) :
    (r.forgetPeer key).Backed S config peerID base :=
  { h with
    sessions := sessions_update h.sessions nofun }

end Backed

/-- The disk works during the call, and no blob has been removed before it. -/
def Calm (S : Stdlib) (r : LifecycleRuntime) (step : RuntimeStep) : Prop :=
  step.faults.Soft ∧ BlobsKept S r.node.blobs (some step.blobs)

theorem Backed.step (hS : S.Lawful) (hfits : config.AuthorityFits S peerID)
    (h : r.Backed S config peerID base) {step : RuntimeStep} (hcalm : r.Calm S step)
    (hctx : Uncanceled step.faults) :
    ∃ base', (r.step S step).Backed S config peerID base' := by
  have hblobs := h.withBlobs hcalm.2
  have hF := hcalm.1
  obtain ⟨call, F, blobs⟩ := step
  cases call with
  | put nameSpace logicalKey data blobKey =>
    show ∃ base', Backed S config peerID base' (finalState (discard _))
    rw [finalState_discard]
    exact ⟨base, (put_moves nameSpace logicalKey data blobKey _).backed hS hF hctx hfits
      hblobs⟩
  | delete nameSpace logicalKey =>
    show ∃ base', Backed S config peerID base' (finalState (discard _))
    rw [finalState_discard]
    exact ⟨base, (delete_moves nameSpace logicalKey _).backed hS hF hctx hfits hblobs⟩
  | compact => exact hblobs.compact hS hF hctx
  | attachPeer key remoteID capabilities maxFrameBytes =>
    exact ⟨base, hblobs.attachPeer key remoteID capabilities maxFrameBytes⟩
  | forgetPeer key => exact ⟨base, hblobs.forgetPeer key⟩
  | handleFrame key payload => exact hblobs.handleFrame hS hF hctx hfits key payload

theorem Backed.run (hS : S.Lawful) (hfits : config.AuthorityFits S peerID)
    (h : r.Backed S config peerID base) {steps : List RuntimeStep}
    (hcalm : Transition.Along (LifecycleRuntime.step S) (Calm S) r steps)
    (hctx : ∀ step ∈ steps, Uncanceled step.faults) :
    ∃ base', (Transition.run (LifecycleRuntime.step S) r steps).Backed S config peerID
      base' := by
  have hsteps := hcalm.and (Transition.along_of_forall
    (P := fun _ step => Uncanceled step.faults) fun step hstep _ => hctx step hstep)
  refine Transition.run_invariant (I := fun r => ∃ base, r.Backed S config peerID base)
    ?_ hsteps ⟨base, h⟩
  intro r step hstep hr
  obtain ⟨base, hr⟩ := hr
  exact hr.step hS hfits hstep.1 hstep.2

/-- Closing a backed runtime succeeds and changes no file. -/
theorem Backed.close (h : r.Backed S config peerID base) :
    ∃ closed, LifecycleRuntime.close Faults.none r = .ok () closed ∧
      closed.node.fs = r.node.fs := by
  obtain ⟨ino, hfile, _, _, _⟩ := h.journal.held
  have hopened : r.node.journal.closed = false := h.journal.opened
  have hclose : Journal.close Oracle.none ⟨r.node.fs, r.node.journal⟩ = .ok ()
      ⟨r.node.fs, { r.node.journal with closed := true, file := none }⟩ := by
    unfold Journal.close
    rw [run_bind_get]
    simp only [hopened, hfile]
    rfl
  have hrun : onApplier (onJournal (Journal.close Oracle.none))
      { r with sessions := fun _ => none } = .ok () ({ r with
        sessions := fun _ => none }.withJournal
        ⟨r.node.fs, { r.node.journal with closed := true, file := none }⟩) :=
    run_zoom (run_zoom hclose)
  exact ⟨_, hrun, rfl⟩

end LifecycleRuntime

/-! ## Restarts -/

/-- The configuration is checked for a blob store, not for what it contains. -/
theorem LifecycleConfig.validate_some {config : LifecycleConfig} (b b' : Blobs)
    {token : String} {peerID : Bytes} :
    config.validate (some b) token peerID = config.validate (some b') token peerID := rfl

/-- For every run of an opened runtime during which the disk works, no blob is removed and
no context is canceled at the wrong time: closing succeeds, and opening the directory
again gives the same state, journal, watermarks and membership, and an authority that is
not behind. -/
theorem restart_transparent {S : Stdlib} (hS : S.Lawful) {F : Faults}
    {config : LifecycleConfig} {blobs : Option Blobs} {token : String} {peerID : Bytes}
    {random : UInt64} {fs fs' : FS} {start : LifecycleRuntime}
    (hopen : openLifecycleRuntime S F config blobs token peerID random fs =
      .ok (some start) fs')
    {steps : List RuntimeStep}
    (hcalm : Transition.Along (LifecycleRuntime.step S) (LifecycleRuntime.Calm S) start steps)
    (hctx : ∀ step ∈ steps, LifecycleRuntime.Uncanceled step.faults)
    (hmax : config.journalLimits.maxJournalBytes < maxInt64)
    (hfits : config.AuthorityFits S peerID) :
    let now := Transition.run (LifecycleRuntime.step S) start steps
    ∃ closed, LifecycleRuntime.close Faults.none now = .ok () closed ∧
      ∀ blobs', BlobsKept S now.node.blobs (some blobs') → ∀ random',
        ∃ r fs'', openLifecycleRuntime S Faults.none config (some blobs') token peerID random'
            closed.node.fs = .ok (some r) fs'' ∧
          r.node.store.snapshot = now.node.store.snapshot ∧
          r.node.journal.floor = now.node.journal.floor ∧
          r.node.journal.lastVersion = now.node.journal.lastVersion ∧
          r.node.journal.records = now.node.journal.records ∧
          r.node.watermarks.watermarks = now.node.watermarks.watermarks ∧
          r.membership.members = now.membership.members ∧
          r.membership.configured = now.membership.configured ∧
          now.authority.current ≤ r.authority.current ∧
          (closed.node.fs.read (.file (config.statePath "journal"))).map List.length =
            some now.node.journal.size := by
  intro now
  obtain ⟨_, _, hbacked⟩ := openLifecycleRuntime_backed hS hopen
  obtain ⟨base, hnow⟩ : ∃ base, now.Backed S config peerID base :=
    hbacked.run hS hfits hcalm hctx
  obtain ⟨closed, hclose, hfs⟩ := hnow.close
  refine ⟨closed, hclose, fun blobs' hkept random' => ?_⟩
  obtain ⟨henabled, hvalid, _⟩ := openLifecycleRuntime_eq_ok.mp hopen
  obtain ⟨b, rfl⟩ := LifecycleConfig.validate_blobs henabled hvalid
  rw [LifecycleConfig.validate_some b blobs'] at hvalid
  have hbytes : now.node.journal.maxBytes < maxInt64 := by
    obtain ⟨n, hn, _, hmaxBytes, _⟩ := hnow.opened.options
    rw [hmaxBytes, (JournalOptions.normalized_fields hn).2]
    unfold orDefault
    split
    · decide
    · exact hmax
  obtain ⟨r, fs'', hreopen, hjournal, hstore, hwatermarks, hmembership, hauthority, _⟩ :=
    hnow.reopen hS (F := Faults.none) (fun _ _ => rfl) henabled hvalid hkept hbytes hfits
      random'
  rw [hfs]
  refine ⟨r, fs'', hreopen, by rw [hstore], by rw [hjournal], by rw [hjournal],
    by rw [hjournal], by rw [hwatermarks], by rw [hmembership], by rw [hmembership],
    hauthority, ?_⟩
  obtain ⟨ino, _, hdir, _, hsize⟩ := hnow.journal.held
  rw [hnow.opened.path] at hdir
  unfold FS.read
  rw [hdir]
  exact congrArg some hsize

theorem Faults.single_soft {site : Site} {c : Call} (hc : ¬ c.OnDisk) (n : Nat) :
    (Faults.single site c (.fail n)).Soft := by
  intro site'
  unfold Faults.single Oracle.single
  split
  · constructor
    · intro c' hdisk
      rw [if_neg]
      rintro rfl
      exact hc hdisk
    · intro c' m
      split <;> nofun
  · exact ⟨fun _ _ => rfl, fun _ _ => nofun⟩

namespace Sample

theorem length_writeAuthority_le (version : Version) :
    (writeAuthority ⟨ascii "node", version⟩).length ≤ 100 := by
  have hepoch := JsonText.length_digits_le 20 version.epoch.toNat
  have hsequence := JsonText.length_digits_le 20 version.sequence.toNat
  have hid : (ascii "\x7b\"authority_id\":").length = 16 := by decide +kernel
  have hname : (JsonText.writeString (ascii "node")).length = 6 := by decide +kernel
  have hversion : (ascii ",\"version\":").length = 11 := by decide +kernel
  have hopen : (ascii "\x7b\"epoch\":").length = 9 := by decide +kernel
  have hcomma : (ascii ",\"sequence\":").length = 12 := by decide +kernel
  have hclose : (ascii "\x7d").length = 1 := by decide +kernel
  unfold writeAuthority writeVersion JsonText.writeUInt64
  simp only [List.length_append]
  omega

/-- A state of this authority takes at most a hundred bytes and an envelope. -/
theorem authorityFits (limits : RepairLimits) :
    (config limits).AuthorityFits goStdlib (ascii "node") := by
  intro version
  have hlength := length_writeAuthority_le version
  refine ⟨goStdlib_lawful.authority.marshal_ne_nil _, ?_, ?_⟩
  · show (writeAuthority ⟨ascii "node", version⟩).length ≤ maxUint32
    unfold maxUint32
    omega
  · show ((envelope goStdlib (writeAuthority ⟨ascii "node", version⟩)).length : Int) ≤
      orDefault 0 defaultMaxAuthorityStateBytes
    rw [length_envelope, show orDefault 0 defaultMaxAuthorityStateBytes = 1048576 from rfl]
    omega

theorem deleteKey_calm : Transition.Along (LifecycleRuntime.step goStdlib)
    (LifecycleRuntime.Calm goStdlib) emptyRuntime [deleteKey "a"] := by
  obtain ⟨_, hblobs, _⟩ := openLifecycleRuntime_backed goStdlib_lawful emptyRuntime_open
  refine ⟨⟨Faults.none_soft, hblobs ▸ ?_⟩, trivial⟩
  rintro key ⟨b, data, hb, hdata, _⟩
  cases hb
  cases hdata

theorem deleteKey_uncanceled : ∀ step ∈ [deleteKey "a"],
    LifecycleRuntime.Uncanceled step.faults := by
  intro step hstep
  rw [List.mem_singleton.mp hstep]
  exact ⟨fun _ _ => rfl, fun _ => rfl⟩

/-- A peer sends a checkpoint without records, and the context is canceled when the
checkpoint has been replaced and the journal has not. -/
def canceledSteps : List RuntimeStep :=
  [⟨.attachPeer "source" (ascii "source") [lifecycleCapabilityV1] 0, Faults.none,
      fun _ => none⟩,
    ⟨.handleFrame "source"
        (goStdlib.snapshot.marshal ⟨repairSnapshotMessageType, ⟨1, 1⟩, []⟩),
      Faults.single .rewrite (.ctxErr 0) (.fail 0), fun _ => none⟩]

/-- The largest limit that an `int64` can hold. -/
def unboundedConfig : LifecycleConfig :=
  { config RepairLimits.unset with journalLimits := ⟨Limits.unset, maxInt64, 0, le_rfl⟩ }

/-- The directory of the runtime, closed and opened again. -/
def reopened (config : LifecycleConfig) (r : LifecycleRuntime) :
    EStateM.Result Error FS (Option LifecycleRuntime) :=
  openOn config (finalState (LifecycleRuntime.close Faults.none r)).node.fs

end Sample

theorem restart_transparent_sample :
    let now := Transition.run (LifecycleRuntime.step goStdlib) Sample.emptyRuntime
      [Sample.deleteKey "a"]
    ∃ closed blobs r fs', LifecycleRuntime.close Faults.none now = .ok () closed ∧
      openLifecycleRuntime goStdlib Faults.none (Sample.config RepairLimits.unset)
          (some blobs) "token" (ascii "node") 9 closed.node.fs = .ok (some r) fs' ∧
      r.node.journal.records = now.node.journal.records := by
  obtain ⟨closed, hclose, hreopen⟩ := restart_transparent goStdlib_lawful
    Sample.emptyRuntime_open Sample.deleteKey_calm Sample.deleteKey_uncanceled (by decide)
    (Sample.authorityFits _)
  have hsome : (Transition.run (LifecycleRuntime.step goStdlib) Sample.emptyRuntime
      [Sample.deleteKey "a"]).node.blobs.isSome = true := by decide +kernel
  obtain ⟨b, hb⟩ := Option.isSome_iff_exists.mp hsome
  obtain ⟨r, fs', hopen, _, _, _, hrecords, _⟩ := hreopen b (hb ▸ BlobsKept.refl _ _) 9
  exact ⟨closed, b, r, fs', hclose, hopen, hrecords⟩

/-- The directory cannot be opened again: the installation of a snapshot was canceled
between the files, or the journal limit is the largest `int64`. -/
theorem restart_fails :
    (∀ step ∈ Sample.canceledSteps, step.faults.Soft) ∧
      error? (Sample.reopened (Sample.config RepairLimits.unset) (Transition.run
        (LifecycleRuntime.step goStdlib) Sample.emptyRuntime Sample.canceledSteps)) =
        some (.checkpointFloorMismatch ⟨1, 1⟩ Version.zero) ∧
      ((value? (Sample.openOn Sample.unboundedConfig FS.empty)).join.map fun r =>
        error? (Sample.reopened Sample.unboundedConfig r)) =
        some (some (.errorf "lifecycle: open journal" .journalCorrupt)) := by
  refine ⟨?_, by decide +kernel, by decide +kernel⟩
  intro step hstep
  unfold Sample.canceledSteps at hstep
  rcases List.mem_cons.mp hstep with rfl | hrest
  · exact Faults.none_soft
  · rw [List.mem_singleton.mp hrest]
    have hctx : ¬ (Call.ctxErr 0).OnDisk := fun hdisk => hdisk
    exact Faults.single_soft hctx 0

end StreamHive.Lifecycle
