import StreamHive.Lifecycle.RuntimeSpec

/-!
# Repair behind a compaction

A compaction of the runtime moves the journal floor to the last version, so every
peer that is not up to date can from then on only be sent the checkpoint.  A batch
is cut where it reaches a repair limit; the checkpoint is sent whole.

## Main results

* `plan_after_compaction` — after a compaction, a plan for a peer behind the last
  version succeeds if and only if the whole state fits one snapshot frame, and a
  plan for any other peer is the one made before;
* `compaction_strands_peer` — two records, each of which fits a batch, and a limit of
  one record in a frame.
-/

namespace StreamHive.Lifecycle

open Verified ByteString Effect FileSystem Log

/-- The checkpoint fits one snapshot frame. -/
structure Checkpoint.FitsFrame (S : Stdlib) (limits : RepairLimits) (c : Checkpoint) :
    Prop where
  records : CheckpointRecords S limits.recordLimits c.watermark c.records
  bounds : limits.normalized.Holds S (tableOf c.records).values
  frame : (S.snapshot.marshal ⟨repairSnapshotMessageType, c.watermark,
    (tableOf c.records).values⟩).length ≤ limits.normalized.maxFrameBytes

section Plans

variable {S : Stdlib} {o : Oracle} {j j' : Journal} {w : Version}
  {snapshot snapshot' : Option Checkpoint} {limits : RepairLimits}

/-- A peer behind the floor is sent the checkpoint, if it fits. -/
theorem planRepair_behind (hctx : o (.ctxErr 1) = .proceed) (hbehind : w < j.floor)
    {c : Checkpoint} (hc : c.watermark = j.floor) :
    (∃ plan, planRepair S o j w (some c) limits = .ok plan) ↔ c.FitsFrame S limits := by
  have hencode : ∀ payload, encodeRepairSnapshot S ⟨repairSnapshotMessageType, c.watermark,
      c.records⟩ limits.normalized = .ok payload ↔
        CheckpointRecords S limits.recordLimits c.watermark c.records ∧
          limits.normalized.Holds S (tableOf c.records).values ∧
          payload = S.snapshot.marshal ⟨repairSnapshotMessageType, c.watermark,
            (tableOf c.records).values⟩ ∧
          payload.length ≤ limits.normalized.maxFrameBytes := by
    intro payload
    rw [encodeRepairSnapshot_eq_ok rfl, RepairLimits.normalized_normalized]
    show CheckpointRecords S limits.recordLimits.normalized _ _ ∧ _ ↔ _
    rw [checkpointRecords_normalized]
  unfold planRepair
  rw [ctxCheck_ok.mpr hctx]
  simp only [Version.compare_lt_zero, if_pos hbehind, hc, ne_eq, not_true_eq_false, if_false]
  rw [← hc]
  constructor
  · intro hplan
    obtain ⟨plan, hplan⟩ := hplan
    obtain ⟨_, _, hplan⟩ := except_bind_ok.mp hplan
    obtain ⟨payload, hpayload, _⟩ := except_bind_ok.mp hplan
    obtain ⟨hrecords, hbounds, rfl, hframe⟩ := (hencode payload).mp hpayload
    exact ⟨hrecords, hbounds, hframe⟩
  · intro hfits
    have hpayload := (hencode _).mpr ⟨hfits.records, hfits.bounds, rfl, hfits.frame⟩
    exact ⟨_, except_bind_ok.mpr ⟨(), rfl, except_bind_ok.mpr ⟨_, hpayload, rfl⟩⟩⟩

/-- No record is newer than the last version. -/
theorem Journal.after_last (j : Journal) (h : j.lastVersion ≤ w) :
    (j.records.filter fun r => r.version.compare w > 0) = [] := by
  rw [List.filter_eq_nil_iff]
  intro r hr
  have hle : r.version ≤ w := le_trans (j.log.le_last r hr) h
  simpa [Version.compare_pos] using hle

/-- Journals that have nothing for the peer make the same plan. -/
theorem planRepair_caught_up (hlast : j.lastVersion ≤ w) (hlast' : j'.lastVersion ≤ w)
    {file file' : File} (hopen : j.ensureOpen = .ok file) (hopen' : j'.ensureOpen = .ok file') :
    planRepair S o j w snapshot limits = planRepair S o j' w snapshot' limits := by
  have hfloor : ¬ w < j.floor := not_lt.mpr (le_trans j.log.floor_le_last hlast)
  have hfloor' : ¬ w < j'.floor := not_lt.mpr (le_trans j'.log.floor_le_last hlast')
  have hbatch : j.repairBatch S o w limits.normalized =
      j'.repairBatch S o w limits.normalized := by
    unfold Journal.repairBatch
    simp only [Version.compare_lt_zero, if_neg hfloor, if_neg hfloor', hopen, hopen',
      j.after_last hlast, j'.after_last hlast']
    rfl
  unfold planRepair
  simp only [Version.compare_lt_zero, if_neg hfloor, if_neg hfloor', hbatch]

theorem Journal.closed_of_ensureOpen {file : File} (h : j.ensureOpen = .ok file) :
    j.closed = false := by
  unfold Journal.ensureOpen at h
  cases hfile : j.file with
  | none =>
    rw [hfile] at h
    cases h
  | some f =>
    rw [hfile] at h
    cases hclosed : j.closed with
    | false => rfl
    | true =>
      simp [hclosed] at h

end Plans

/-! ## After a compaction -/

namespace LifecycleRuntime

variable {S : Stdlib} {F : Faults} {r r' : LifecycleRuntime}

/-- What a compaction leaves behind. -/
theorem compact_ok (hS : S.Lawful) (h : compact S F r = .ok () r') :
    r'.snapshot = some r.nextCheckpoint ∧
      r'.node.repairLimits = r.node.repairLimits ∧
      r'.node.journal.floor = r.node.journal.lastVersion ∧
      r'.node.journal.lastVersion = r.node.journal.lastVersion ∧
      (∃ file, r.node.journal.ensureOpen = .ok file) ∧
      ∃ file, r'.node.journal.ensureOpen = .ok file := by
  rcases compact_cases S F r with ⟨e, hrun⟩ | ⟨peers, ⟨e, d, _, hrun⟩ | ⟨d, hcall, hrun⟩⟩
  · rw [hrun] at h
    cases h
  · rw [hrun] at h
    cases h
  rw [hrun] at h
  cases h
  rcases Journal.compact_cases hS F (r.compaction peers) ⟨r.node.fs, r.node.journal⟩ with
    ⟨e, he, _⟩ | ⟨_, hcompactable, file, hopen, heq⟩
  · rw [he] at hcall
    cases hcall
  · rw [heq] at hcall
    obtain ⟨_, ino, _, _, _, hobj, _⟩ := replaceFiles_ok hcall
    have hclosed : r.node.journal.closed = false := Journal.closed_of_ensureOpen hopen
    have hjournal : (r.withJournal d).node.journal = r.node.journal.adopted ino
        (journalBytes S (r.node.journal.log.cut r.node.journal.lastVersion)).length
        (r.node.journal.log.cut r.node.journal.lastVersion) := hobj
    refine ⟨rfl, rfl, ?_, ?_, ⟨file, hopen⟩, ⟨ino, false⟩, ?_⟩
    · show (r.withJournal d).node.journal.floor = _
      rw [hjournal]
      rfl
    · show (r.withJournal d).node.journal.lastVersion = _
      rw [hjournal]
      exact r.node.journal.log.last_cut r.node.journal.log.floor_le_last le_rfl
    · show (r.withJournal d).node.journal.ensureOpen = _
      rw [hjournal]
      unfold Journal.ensureOpen Journal.adopted
      simp [hclosed]

end LifecycleRuntime

/-- When a compaction has returned nil, a peer behind the last version can be repaired
if and only if the whole state fits one snapshot frame; any other peer, if and only if
it could before. -/
theorem plan_after_compaction {S : Stdlib} (hS : S.Lawful) {F : Faults}
    {r r' : LifecycleRuntime} (hcompact : LifecycleRuntime.compact S F r = .ok () r')
    {o : Oracle} (hctx : o (.ctxErr 1) = .proceed) (w : Version) :
    (∃ plan, planRepair S o r'.node.journal w r'.snapshot r'.node.repairLimits =
        .ok plan) ↔
      (w < r.node.journal.lastVersion ∧
        r.nextCheckpoint.FitsFrame S r.node.repairLimits) ∨
      (r.node.journal.lastVersion ≤ w ∧
        ∃ plan, planRepair S o r.node.journal w r.snapshot r.node.repairLimits =
          .ok plan) := by
  obtain ⟨hsnapshot, hlimits, hfloor, hlast, ⟨file, hopen⟩, file', hopen'⟩ :=
    LifecycleRuntime.compact_ok hS hcompact
  rw [hsnapshot, hlimits]
  by_cases hbehind : w < r.node.journal.lastVersion
  · have hbelow : w < r'.node.journal.floor := by
      rw [hfloor]
      exact hbehind
    rw [planRepair_behind hctx hbelow hfloor.symm]
    constructor
    · intro hfits
      exact .inl ⟨hbehind, hfits⟩
    · intro hor
      rcases hor with ⟨_, hfits⟩ | ⟨hnot, _⟩
      · exact hfits
      · exact absurd hnot (not_le.mpr hbehind)
  · have hreached : r.node.journal.lastVersion ≤ w := not_lt.mp hbehind
    have hsame : planRepair S o r'.node.journal w (some r.nextCheckpoint)
        r.node.repairLimits = planRepair S o r.node.journal w r.snapshot
        r.node.repairLimits :=
      planRepair_caught_up (hlast ▸ hreached) hreached hopen' hopen
    rw [hsame]
    constructor
    · intro hplan
      exact .inr ⟨hreached, hplan⟩
    · intro hor
      rcases hor with ⟨hlt, _⟩ | ⟨_, hplan⟩
      · exact absurd hlt hbehind
      · exact hplan

namespace Sample

/-- A new runtime under the repair limits. -/
def newRuntime (limits : RepairLimits)
    (h : (value? (openOn (config limits) FS.empty)).join.isSome) : LifecycleRuntime :=
  (value? (openOn (config limits) FS.empty)).join.get h

theorem unset_opens : (value? (openOn (config RepairLimits.unset) FS.empty)).join.isSome := by
  decide +kernel

/-- Two keys have been deleted. -/
def twoTombstones (r : LifecycleRuntime) : LifecycleRuntime :=
  (r.step goStdlib (deleteKey "a")).step goStdlib (deleteKey "b")

/-- At most one record in a frame. -/
def oneInFrame : LifecycleRuntime :=
  twoTombstones (newRuntime ⟨1, 0, 0, 0, Limits.unset⟩ (by decide +kernel))

/-- The default repair limits. -/
def manyInFrame : LifecycleRuntime :=
  twoTombstones (newRuntime RepairLimits.unset unset_opens)

def compactedOf (r : LifecycleRuntime) : LifecycleRuntime :=
  finalState (LifecycleRuntime.compact goStdlib Faults.none r)

end Sample

/-- Every record fits a batch, and a new peer could be repaired before the compaction;
it cannot behind it. -/
theorem compaction_strands_peer :
    (∀ record ∈ Sample.oneInFrame.node.journal.records, (encodeRepairBatch goStdlib
        (candidateBatch Version.zero [record] 1)
        Sample.oneInFrame.node.repairLimits).isOk = true) ∧
      (planRepair goStdlib Oracle.none Sample.oneInFrame.node.journal Version.zero
        Sample.oneInFrame.snapshot Sample.oneInFrame.node.repairLimits).isOk = true ∧
      error? (LifecycleRuntime.compact goStdlib Faults.none Sample.oneInFrame) = none ∧
      planRepair goStdlib Oracle.none (Sample.compactedOf Sample.oneInFrame).node.journal
        Version.zero (Sample.compactedOf Sample.oneInFrame).snapshot
        (Sample.compactedOf Sample.oneInFrame).node.repairLimits = .error .repairLimit := by
  decide +kernel

theorem plan_after_compaction_sample :
    error? (LifecycleRuntime.compact goStdlib Faults.none Sample.manyInFrame) = none ∧
      Sample.manyInFrame.nextCheckpoint.FitsFrame goStdlib Sample.manyInFrame.node.repairLimits := by
  have hrun : error? (LifecycleRuntime.compact goStdlib Faults.none Sample.manyInFrame) = none ∧
      (planRepair goStdlib Oracle.none (Sample.compactedOf Sample.manyInFrame).node.journal
        Version.zero (Sample.compactedOf Sample.manyInFrame).snapshot
        (Sample.compactedOf Sample.manyInFrame).node.repairLimits).isOk = true ∧
      ¬ Sample.manyInFrame.node.journal.lastVersion ≤ Version.zero := by
    decide +kernel
  obtain ⟨hcompact, hplan, hbehind⟩ := hrun
  unfold Sample.compactedOf at hplan
  have hiff := plan_after_compaction goStdlib_lawful (ok_of_error? hcompact)
    (o := Oracle.none) rfl Version.zero
  rcases hiff.mp (except_isOk hplan) with ⟨_, hfits⟩ | ⟨hno, _⟩
  · exact ⟨hcompact, hfits⟩
  · exact absurd hno hbehind

end StreamHive.Lifecycle
