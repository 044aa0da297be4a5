import StreamHive.Lifecycle.AppendFailures
import StreamHive.Lifecycle.Compaction

/-!
# The live journal after a failed replacement

When compaction or snapshot installation returns an error, the journal stays
open and is appended to.  It is `Usable` when its log and its open file are those
of the file at its path, and when everything appended to it later is found by the
next opening.

A failing call before the rename of the new journal file leaves the journal
usable.  A failing call after the rename leaves it on the file that has just been
replaced (`not_usable_of_replaced`).  `usable_after_failure` puts both together,
for every single failing call.
-/

namespace StreamHive.Lifecycle

open Verified ByteString Effect FileSystem Log

/-! ## The two replacing operations -/

/-- The operations that replace the journal file. -/
inductive Replacement where
  | compact (request : CompactionRequest)
  | installSnapshot (checkpointPath : String) (checkpoint : Checkpoint)

namespace Replacement

def run (S : Stdlib) (F : Faults) : Replacement → EStateM Error (OnDisk Journal) Unit
  | .compact request => Journal.compact S F request
  | .installSnapshot checkpointPath checkpoint =>
    Journal.installSnapshot S F checkpointPath checkpoint

def checkpointPath : Replacement → String
  | .compact request => request.checkpointPath
  | .installSnapshot checkpointPath _ => checkpointPath

/-- The checkpoint that the operation writes. -/
def checkpoint : Replacement → Checkpoint
  | .compact request => request.checkpoint
  | .installSnapshot _ checkpoint => checkpoint

/-- The operation's checks accept the journal. -/
def Admitted (S : Stdlib) (j : Journal) : Replacement → Prop
  | .compact request => request.checkpointPath ≠ "" ∧ j.Compactable S request
  | .installSnapshot checkpointPath checkpoint =>
    checkpointPath ≠ "" ∧ j.Installable S checkpointPath checkpoint

/-- The log that the operation leaves. -/
def newLog (j : Journal) : Replacement → JournalLog
  | .compact request => j.log.cut request.watermark
  | .installSnapshot _ checkpoint => Segment.reset Record.version checkpoint.watermark

/-- The site of the operation's first check of its context. -/
def entrySite : Replacement → Site
  | .compact _ => .entry
  | .installSnapshot _ _ => .install

theorem Admitted.path {S : Stdlib} {j : Journal} {op : Replacement}
    (h : op.Admitted S j) : j.path ≠ op.checkpointPath := by
  cases op with
  | compact request | installSnapshot checkpointPath checkpoint => exact h.2.path.symm

/-- Either operation is refused with nothing changed, or replaces the two files. -/
theorem run_cases {S : Stdlib} (hS : S.Lawful) (F : Faults) (op : Replacement)
    (s : OnDisk Journal) :
    (∃ e, op.run S F s = .error e s ∧ ¬ (F op.entrySite (.ctxErr 0) = .proceed ∧
        op.Admitted S s.obj ∧ ∃ file, s.obj.ensureOpen = .ok file)) ∨
      (op.Admitted S s.obj ∧ ∃ file, s.obj.ensureOpen = .ok file ∧
        op.run S F s = replaceFiles S F op.checkpointPath
          (checkpointBytes S op.checkpoint) file (op.newLog s.obj) s) := by
  cases op with
  | compact request =>
    rcases Journal.compact_cases hS F request s with ⟨e, he, hnot⟩ |
      ⟨hpath, hok, file, hopen, heq⟩
    · exact .inl ⟨e, he, fun h => hnot ⟨h.1, h.2.1.1, h.2.1.2, h.2.2⟩⟩
    · exact .inr ⟨⟨hpath, hok⟩, file, hopen, heq⟩
  | installSnapshot checkpointPath checkpoint =>
    rcases Journal.installSnapshot_cases hS F checkpointPath checkpoint s with
      ⟨e, he, hnot⟩ | ⟨hpath, hok, file, hopen, heq⟩
    · exact .inl ⟨e, he, fun h => hnot ⟨h.1, h.2.1.1, h.2.1.2, h.2.2⟩⟩
    · exact .inr ⟨⟨hpath, hok⟩, file, hopen, heq⟩

end Replacement

/-! ## Usable journals -/

/-- The journal's log and open file are those of the file at its path, and what
is appended to it from here on is returned by the next opening. -/
structure Usable (S : Stdlib) (path : String) (options : JournalOptions)
    (s : OnDisk Journal) : Prop where
  corresponds : ∃ ino, s.obj.file = some ⟨ino, false⟩ ∧
    s.fs.dir (.file path) = some ino ∧
    Parses S s.obj.limits (s.fs.content ino) s.obj.log
  survives : ∀ records : List Record, ∃ j' recovery' fs',
    openJournal S Oracle.none path options
        (runAppends S (records.map fun r => (r, Oracle.none)) s).1.fs =
      .ok (j', recovery') fs' ∧
    (s.obj.records ++ (runAppends S (records.map fun r => (r, Oracle.none)) s).2).Sublist
      j'.records

/-- A synced journal is usable exactly when its read limit does not overflow. -/
theorem Journal.Synced.usable_iff {S : Stdlib} (hS : S.Lawful) {s : OnDisk Journal}
    (h : s.obj.Synced S s.fs) {path : String} {options : JournalOptions}
    (hwith : s.obj.OpenedWith path options) :
    Usable S path options s ↔ s.obj.maxBytes < maxInt64 := by
  obtain ⟨ino, hfile, hdir, hparse, hsize⟩ := h.held
  constructor
  · intro husable
    obtain ⟨j', recovery', fs', hopen, _⟩ := husable.survives []
    exact h.int64_of_open hwith hopen
  · intro hmax
    refine ⟨⟨ino, hfile, ?_, hparse⟩, ?_⟩
    · rw [← hwith.path]
      exact hdir
    · intro records
      exact h.appends_survive hS hwith hmax (h.safeAppends hS records)

/-- A journal that is still on the file it had before its path was given to a new
file is not usable. -/
theorem not_usable_of_replaced {S : Stdlib} {path : String} {options : JournalOptions}
    {fs fs' : FS} {j j' : Journal} {data : Bytes} {ino : Nat}
    (hdir : fs.dir (.file path) = some ino) (hfile : j.file = some ⟨ino, false⟩)
    (hfs : FS.Replaced fs path data fs')
    (hj : j' = j ∨ j' = j.released ⟨ino, false⟩) : ¬ Usable S path options ⟨fs', j'⟩ := by
  intro husable
  obtain ⟨ino', hheld, hnamed, _⟩ := husable.corresponds
  obtain ⟨new, hnew, hfresh, _⟩ := hfs.here
  have hold : ino < fs.fresh := fs.allocated _ ino hdir
  have hino : ino' = new := by
    simp only at hnamed
    rw [hnew] at hnamed
    cases hnamed
    rfl
  rcases hj with rfl | rfl
  · simp only at hheld
    rw [hfile] at hheld
    cases hheld
    omega
  · simp [Journal.released] at hheld

/-! ## Single failures -/

/-- The failing call comes after the rename of the new journal file, and the
operation gets there. -/
def FailsAfterRename (S : Stdlib) (j : Journal) (op : Replacement) (site : Site)
    (c : Call) : Prop :=
  site = .rewrite ∧ c ∈ adoptCalls ∧ op.Admitted S j ∧
    Fits S j.maxBytes journalHeaderBytes (op.newLog j).records

private theorem not_rewriteCall {k : Nat} {c : Call} (h : c ∈ adoptCalls) :
    ¬ RewriteCall k c := by
  simp only [adoptCalls, List.mem_cons, List.not_mem_nil, or_false] at h
  rcases h with rfl | rfl | rfl | rfl <;> exact id

/-- For every single failing call of a compaction or a snapshot installation on a
synced journal that returns an error, the journal is usable afterwards exactly
when the call does not come after the rename of the new journal file, and the
byte limit is below the largest `int64`. -/
theorem usable_after_failure {S : Stdlib} (hS : S.Lawful) {s s' : OnDisk Journal}
    {path : String} {options : JournalOptions} (hsynced : s.obj.Synced S s.fs)
    (hwith : s.obj.OpenedWith path options) (op : Replacement) (site : Site) (c : Call)
    (n : Nat) {e : Error}
    (hrun : op.run S (Faults.single site c (.fail n)) s = .error e s') :
    Usable S path options s' ↔
      s.obj.maxBytes < maxInt64 ∧ ¬ FailsAfterRename S s.obj op site c := by
  obtain ⟨ino, hopen, hdir⟩ := hsynced.ensureOpen
  have hstill : ∀ {fs' : FS}, s.obj.Synced S fs' →
      ¬ FailsAfterRename S s.obj op site c →
      (Usable S path options ⟨fs', s.obj⟩ ↔
        s.obj.maxBytes < maxInt64 ∧ ¬ FailsAfterRename S s.obj op site c) := by
    intro fs' h hnot
    have hiff := @Journal.Synced.usable_iff S hS ⟨fs', s.obj⟩ h path options hwith
    rw [hiff]
    exact (and_iff_left hnot).symm
  rcases op.run_cases hS (Faults.single site c (.fail n)) s with
    ⟨e', he, hrefused⟩ | ⟨hadmitted, file, hfile, heq⟩
  · rw [he] at hrun
    cases hrun
    refine hstill hsynced ?_
    rintro ⟨rfl, hc, hadmitted, _⟩
    refine hrefused ⟨Faults.single_of_ne ?_ _ _ _, hadmitted, _, hopen⟩
    cases op <;> simp [Replacement.entrySite]
  rw [hopen] at hfile
  cases hfile
  rw [heq] at hrun
  rcases replaceFiles_cases S (Faults.single site c (.fail n)) op.checkpointPath
      (checkpointBytes S op.checkpoint) ⟨ino, false⟩ (op.newLog s.obj) s with
    ⟨e', fs', he, huntouched, c', _, hc'⟩ |
    ⟨_, fs₁, hckpt, ⟨e', fs', he, huntouched, hwhy⟩ |
      ⟨_, _, hfits, fs', hjournal, ⟨e', j', he, hj', hwhy⟩ | ⟨ino', hend, _⟩⟩⟩
  · rw [he] at hrun
    cases hrun
    refine hstill (hsynced.of_untouched huntouched) ?_
    rintro ⟨rfl, _⟩
    exact absurd (Faults.single_ne_proceed hc').1 (by decide)
  · rw [he] at hrun
    cases hrun
    refine hstill ((hsynced.of_replaced hckpt hadmitted.path).of_untouched huntouched) ?_
    rintro ⟨rfl, hc, _, hfits⟩
    rcases hwhy with hsync | ⟨c', hcall, hc'⟩ | hnot
    · exact absurd (Faults.single_ne_proceed hsync).1 (by decide)
    · rw [(Faults.single_ne_proceed hc').2] at hcall
      exact not_rewriteCall hc hcall
    · exact hnot hfits
  · rw [he] at hrun
    cases hrun
    have hbad : FailsAfterRename S s.obj op site c := by
      rcases hwhy with hclosed | ⟨c', hcall, hc'⟩
      · cases hclosed
      · obtain ⟨hsite, hc⟩ := Faults.single_ne_proceed hc'
        exact ⟨hsite.symm, hc ▸ hcall, hadmitted, hfits⟩
    have hsynced₁ := hsynced.of_replaced hckpt hadmitted.path
    obtain ⟨ino₁, hheld, hdir₁, _, _⟩ := hsynced₁.held
    have hino : ino₁ = ino := by
      have hdir' := (hckpt.dir s.obj.path hadmitted.path).trans hdir
      rw [hdir₁] at hdir'
      cases hdir'
      rfl
    subst hino
    rw [hwith.path] at hdir₁ hjournal
    exact iff_of_false (not_usable_of_replaced hdir₁ hheld hjournal hj')
      fun h => h.2 hbad
  · rw [hend] at hrun
    cases hrun

/-! ## Runs of the concrete model -/

namespace Sample

/-- The state that the first record leaves. -/
def snapshotFirst : Checkpoint := ⟨first.version, [first]⟩

/-- A snapshot installation whose directory sync after the second rename fails. -/
def unsynced : EStateM.Result Error (OnDisk Journal) Unit :=
  Journal.installSnapshot goStdlib (Faults.single .rewrite .syncDirectory (.fail 0))
    "checkpoint" snapshotFirst opened

/-- A compaction whose second rename fails. -/
def unrenamed : EStateM.Result Error (OnDisk Journal) Unit :=
  Journal.compact goStdlib (Faults.single .rewrite .rename (.fail 0)) compactFirst
    twoRecords

theorem twoRecords_synced : twoRecords.obj.Synced goStdlib twoRecords.fs :=
  ((openJournal_synced openJournal_opened).1.append_none goStdlib_lawful first).append_none
    goStdlib_lawful second

theorem twoRecords_openedWith : twoRecords.obj.OpenedWith "journal" options :=
  ⟨by decide +kernel, _, rfl, by decide +kernel, by decide +kernel, by decide +kernel⟩

end Sample

open Sample in
/-- The directory sync after the second rename fails, the next append returns nil,
and the next opening does not return its record. -/
theorem append_lost_after_unsynced_rename :
    error? unsynced = some (.io .syncDirectory) ∧
      (runAppends goStdlib [(second, Oracle.none)] (finalState unsynced)).2 = [second] ∧
      (value? (openJournal goStdlib Oracle.none "journal" options
        (runAppends goStdlib [(second, Oracle.none)] (finalState unsynced)).1.fs)).map
          (fun r => r.1.records) = some [] :=
  ⟨by decide +kernel, by decide +kernel, by decide +kernel⟩

open Sample in
/-- The second rename fails and the journal is still usable. -/
theorem usable_after_failed_rename :
    ∃ e s', unrenamed = .error e s' ∧ Usable goStdlib "journal" options s' := by
  cases hrun : unrenamed with
  | ok u s' =>
    have herror : error? unrenamed = some (.io .rename) := by decide +kernel
    rw [hrun] at herror
    cases herror
  | error e s' =>
    refine ⟨e, s', rfl, (usable_after_failure goStdlib_lawful twoRecords_synced
      twoRecords_openedWith (.compact compactFirst) .rewrite .rename 0 hrun).mpr
        ⟨by decide +kernel, ?_⟩⟩
    rintro ⟨_, hc, _⟩
    exact absurd hc (by decide)

end StreamHive.Lifecycle
