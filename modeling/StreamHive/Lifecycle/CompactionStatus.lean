import StreamHive.Lifecycle.RuntimeSpec

/-!
# The reported status of a compaction

The status of a node says whether a compaction would be let through.  It counts
the members that have acknowledged the journal tail, while the compaction itself
stops at the first member that has not.  The two are computed by different loops
over the same member set; this module compares them.

## Main results

* `progress_live` — the count and the minimum that are reported;
* `compact_evidence` — a compaction begins by asking for the evidence;
* `compaction_status_exact` — the status is unblocked exactly if there is evidence.
-/

namespace StreamHive.Lifecycle

open Verified ByteString Effect

/-! ## The report -/

structure MembershipProgress where
  configured : Bool
  members : Nat
  acknowledged : Nat
  minimum : Version
  target : Version
  deriving DecidableEq

/-- The version becomes the minimum of the report. -/
def MembershipProgress.Lowers (progress : MembershipProgress) (minimumSet : Bool)
    (version : Version) : Prop :=
  minimumSet = false ∨ version.compare progress.minimum < 0

instance (progress : MembershipProgress) (minimumSet : Bool) (version : Version) :
    Decidable (progress.Lowers minimumSet version) :=
  inferInstanceAs (Decidable (_ ∨ _))

/-- One member's watermark enters the report. -/
def MembershipProgress.observe (progress : MembershipProgress) (minimumSet : Bool)
    (version : Version) : MembershipProgress where
  configured := progress.configured
  members := progress.members
  acknowledged :=
    if ¬progress.target.IsZero ∧ version.compare progress.target ≥ 0 then
      progress.acknowledged + 1
    else progress.acknowledged
  minimum := if progress.Lowers minimumSet version then version else progress.minimum
  target := progress.target

namespace MembershipBook

/-- The loop of `Progress` over the members. -/
def progressLoop (o : Oracle) (watermarks : WatermarkBook) :
    Nat → List Bytes → Bool → MembershipProgress → Except Error MembershipProgress
  | _, [], _, progress => .ok progress
  | i, member :: rest, minimumSet, progress => do
    ctxCheck o i
    let version := watermarks.watermark member
    progressLoop o watermarks (i + 1) rest
      (if progress.Lowers minimumSet version then true else minimumSet)
      (progress.observe minimumSet version)

/-- `MembershipBook.Progress` -/
def progress (o : Oracle) (b : MembershipBook) (watermarks : WatermarkBook)
    (target : Version) : Except Error MembershipProgress := do
  ctxCheck o 0
  progressLoop o watermarks 1 b.members false
    ⟨b.configured, b.members.length, 0, Version.zero, target⟩

end MembershipBook

/-- `compactionProgress`, over the parts of the runtime that it reads. -/
def compactionProgress (journal : Option Journal) (membership : Option MembershipBook)
    (watermarks : Option WatermarkBook) : MembershipProgress :=
  let target := (journal.map Journal.lastVersion).getD Version.zero
  let progress : MembershipProgress := ⟨false, 0, 0, Version.zero, target⟩
  match membership, watermarks with
  | some membership, some watermarks =>
    -- the context is `context.Background()`
    match membership.progress Oracle.none watermarks target with
    | .error _ => progress
    | .ok current => current
  | _, _ => progress

/-- `compactionStatus`: whether a compaction is blocked, and why. -/
def compactionStatus (journal : Option Journal) (membership : Option MembershipBook)
    (watermarks : Option WatermarkBook) (progress : MembershipProgress) : Bool × String :=
  match membership with
  | none => (true, "membership-unavailable")
  | some _ =>
    match watermarks, journal with
    | some _, some journal =>
      if progress.configured = false then (true, "membership-missing")
      else if progress.target.compare journal.floor ≤ 0 then (true, "no-progress")
      else if progress.members ≠ progress.acknowledged then (true, "member-behind")
      else (false, "")
    | _, _ => (true, "compaction-state-unavailable")

/-- What `compact` asks for before it touches the journal: progress, and the
watermark of every member. -/
def compactionEvidence (o : Oracle) (journal : Option Journal)
    (membership : Option MembershipBook) (watermarks : Option WatermarkBook) :
    Except Error (List Version) :=
  match journal, membership, watermarks with
  | some journal, some membership, some watermarks =>
    if journal.lastVersion.compare journal.floor ≤ 0 then .error .compactionNoProgress
    else membership.watermarksAt o watermarks journal.lastVersion
  | _, _, _ => .error (.text "lifecycle: compaction state unavailable")

/-- A compaction begins with the evidence and goes on only if there is any. -/
theorem compact_evidence (S : Stdlib) (F : Faults) (r : LifecycleRuntime) :
    LifecycleRuntime.compact S F r =
      (do
        let peerWatermarks ← attempt (compactionEvidence (F .membership)
          (some r.node.journal) (some r.membership) (some r.node.watermarks))
        LifecycleRuntime.onApplier (onJournal (Journal.compact S F
          (r.compaction peerWatermarks)))
        modify fun (r' : LifecycleRuntime) => { r' with snapshot := some r.nextCheckpoint }) r := by
  unfold LifecycleRuntime.compact compactionEvidence
  rw [run_bind_get]
  dsimp only
  by_cases hprogress : r.node.journal.lastVersion.compare r.node.journal.floor ≤ 0
  · rw [if_pos hprogress]
    exact (run_bind_error (run_raiseIf_error hprogress)).trans
      (run_bind_error (run_attempt_error rfl)).symm
  · rw [if_neg hprogress]
    exact run_bind_ok (run_raiseIf hprogress)

/-! ## The loops -/

/-- The members of a list that have acknowledged the target. -/
def acknowledging (watermarks : WatermarkBook) (target : Version) (members : List Bytes) : Nat :=
  members.countP fun member => target ≤ watermarks.watermark member

/-- The watermarks of a list of members. -/
def watermarksOf (watermarks : WatermarkBook) (members : List Bytes) : Set Version :=
  {v | ∃ member ∈ members, v = watermarks.watermark member}

namespace MembershipProgress

variable {progress : MembershipProgress} {minimumSet : Bool} {version : Version}

theorem minimumSet_of_not_lowers (h : ¬progress.Lowers minimumSet version) :
    minimumSet = true := by
  cases minimumSet with
  | true => rfl
  | false => exact absurd (.inl rfl) h

/-- Observing a version replaces the minimum by the lower of the two. -/
theorem isLeast_observe {rest : Set Version} {least : Version}
    (h : IsLeast ({v | v = (progress.observe minimumSet version).minimum} ∪ rest) least) :
    IsLeast ({v | minimumSet = true ∧ v = progress.minimum} ∪ ({v | v = version} ∪ rest))
      least := by
  obtain ⟨hmem, hbound⟩ := h
  by_cases hlower : progress.Lowers minimumSet version
  · have hminimum : (progress.observe minimumSet version).minimum = version := if_pos hlower
    rw [hminimum] at hmem hbound
    refine ⟨.inr hmem, ?_⟩
    rintro v (⟨hset, rfl⟩ | hv)
    · have hlt : version < progress.minimum := by
        rcases hlower with hunset | hlt
        · rw [hset] at hunset
          cases hunset
        · exact Version.compare_lt_zero.mp hlt
      exact (hbound (.inl rfl)).trans hlt.le
    · exact hbound hv
  · have hminimum : (progress.observe minimumSet version).minimum = progress.minimum :=
      if_neg hlower
    rw [hminimum] at hmem hbound
    have hset := minimumSet_of_not_lowers hlower
    have hle : progress.minimum ≤ version := by
      refine not_lt.mp fun hlt => hlower (.inr ?_)
      exact Version.compare_lt_zero.mpr hlt
    constructor
    · rcases hmem with hmem | hmem
      · exact .inl ⟨hset, hmem⟩
      · exact .inr (.inr hmem)
    · rintro v (⟨_, hv⟩ | hv | hv)
      · exact hbound (.inl hv)
      · rw [show v = version from hv]
        exact (hbound (.inl rfl)).trans hle
      · exact hbound (.inr hv)

end MembershipProgress

namespace MembershipBook

variable {o : Oracle} {watermarks : WatermarkBook} {target : Version}

theorem watermarksOf_cons (member : Bytes) (rest : List Bytes) :
    watermarksOf watermarks (member :: rest) =
      {v | v = watermarks.watermark member} ∪ watermarksOf watermarks rest := by
  ext v
  simp [watermarksOf]

variable (hlive : ∀ i, o (.ctxErr i) = .proceed)
include hlive

/-- The loop counts the members at the target, and its minimum is the least of the
watermarks seen and of the minimum that was already set. -/
theorem progressLoop_live (watermarks : WatermarkBook)
    (members : List Bytes) (i : Nat) (minimumSet : Bool) (progress : MembershipProgress) :
    ∃ result, progressLoop o watermarks i members minimumSet progress = .ok result ∧
      result.configured = progress.configured ∧ result.members = progress.members ∧
      result.target = progress.target ∧
      result.acknowledged = progress.acknowledged + (if progress.target.IsZero then 0
        else acknowledging watermarks progress.target members) ∧
      (members = [] → result.minimum = progress.minimum) ∧
      (minimumSet = true ∨ members ≠ [] →
        IsLeast ({v | minimumSet = true ∧ v = progress.minimum} ∪
          watermarksOf watermarks members) result.minimum) := by
  induction members generalizing i minimumSet progress with
  | nil =>
    refine ⟨progress, rfl, rfl, rfl, rfl, by simp [acknowledging], fun _ => rfl, ?_⟩
    intro hset
    have hset : minimumSet = true := by simpa using hset
    refine ⟨.inl ⟨hset, rfl⟩, ?_⟩
    rintro v (⟨_, rfl⟩ | ⟨_, hmember, _⟩)
    · exact le_refl _
    · cases hmember
  | cons member rest ih =>
    have hstep : progressLoop o watermarks i (member :: rest) minimumSet progress =
        progressLoop o watermarks (i + 1) rest true
          (progress.observe minimumSet (watermarks.watermark member)) := by
      have hset : (if progress.Lowers minimumSet (watermarks.watermark member) then true
          else minimumSet) = true := by
        split
        · rfl
        · rename_i hlower
          exact MembershipProgress.minimumSet_of_not_lowers hlower
      rw [← hset, progressLoop, ctxCheck_ok.mpr (hlive i)]
      rfl
    obtain ⟨result, hrun, hconfigured, hmembers, htarget, hcount, _, hleast⟩ :=
      ih (i + 1) true (progress.observe minimumSet (watermarks.watermark member))
    refine ⟨result, hstep.trans hrun, hconfigured, hmembers, htarget, ?_, by simp, fun _ => ?_⟩
    · rw [hcount]
      unfold acknowledging MembershipProgress.observe
      rw [List.countP_cons]
      by_cases hzero : progress.target.IsZero
      · simp [hzero]
      · by_cases hle : progress.target ≤ watermarks.watermark member
        · simp [hzero, hle]
          omega
        · simp [hzero, hle]
    · rw [watermarksOf_cons]
      refine MembershipProgress.isLeast_observe ?_
      simpa using hleast (.inl rfl)

/-- What is reported while the context is live. -/
theorem progress_live (b : MembershipBook) (watermarks : WatermarkBook) (target : Version) :
    ∃ result, b.progress o watermarks target = .ok result ∧
      result.configured = b.configured ∧ result.members = b.members.length ∧
      result.target = target ∧
      result.acknowledged =
        (if target.IsZero then 0 else acknowledging watermarks target b.members) ∧
      (b.members = [] → result.minimum = Version.zero) ∧
      (b.members ≠ [] → IsLeast (watermarksOf watermarks b.members) result.minimum) := by
  obtain ⟨result, hrun, hconfigured, hmembers, htarget, hcount, hempty, hleast⟩ :=
    progressLoop_live hlive watermarks b.members 1 false
      ⟨b.configured, b.members.length, 0, Version.zero, target⟩
  refine ⟨result, ?_, hconfigured, hmembers, htarget, by simpa using hcount, hempty, ?_⟩
  · unfold progress
    rw [except_bind_ok]
    exact ⟨(), ctxCheck_ok.mpr (hlive 0), hrun⟩
  · intro hne
    simpa using hleast (.inr hne)

/-- The enforcing loop ends well if every member is at the target. -/
theorem collectWatermarks_live (i : Nat)
    {members : List Bytes} (h : ∀ member ∈ members, target ≤ watermarks.watermark member) :
    collectWatermarks o watermarks target i members =
      .ok (members.map watermarks.watermark) := by
  induction members generalizing i with
  | nil => rfl
  | cons member rest ih =>
    have hhere : ¬ (watermarks.watermark member).compare target < 0 := by
      rw [Version.compare_lt_zero, not_lt]
      exact h member (by simp)
    unfold collectWatermarks
    rw [except_bind_ok]
    refine ⟨(), ctxCheck_ok.mpr (hlive i), ?_⟩
    rw [except_guard_ok]
    refine ⟨hhere, ?_⟩
    rw [ih (i + 1) fun m hm => h m (by simp [hm])]
    rfl

/-- There is evidence for a target exactly if every configured member has
acknowledged it. -/
theorem watermarksAt_live (b : MembershipBook) (watermarks : WatermarkBook) (target : Version) :
    (∃ versions, b.watermarksAt o watermarks target = .ok versions) ↔
      ¬target.IsZero ∧ b.configured = true ∧
        ∀ member ∈ b.members, target ≤ watermarks.watermark member := by
  constructor
  · rintro ⟨versions, h⟩
    obtain ⟨hconfigured, rfl, hall⟩ := watermarksAt_ok h
    refine ⟨?_, hconfigured, fun m hm => hall _ (List.mem_map_of_mem hm)⟩
    unfold watermarksAt at h
    rw [except_bind_ok] at h
    obtain ⟨_, _, h⟩ := h
    rw [except_guard_ok] at h
    exact h.1
  · rintro ⟨htarget, hconfigured, hall⟩
    refine ⟨b.members.map watermarks.watermark, ?_⟩
    unfold watermarksAt
    rw [except_bind_ok]
    refine ⟨(), ctxCheck_ok.mpr (hlive 0), ?_⟩
    rw [except_guard_ok, except_guard_ok]
    exact ⟨htarget, by simp [hconfigured], collectWatermarks_live hlive 1 hall⟩

end MembershipBook

/-! ## Report and fence agree -/

theorem acknowledging_eq_length {watermarks : WatermarkBook} {target : Version}
    {members : List Bytes} :
    members.length = acknowledging watermarks target members ↔
      ∀ member ∈ members, target ≤ watermarks.watermark member := by
  unfold acknowledging
  rw [eq_comm, List.countP_eq_length]
  simp

theorem compactionProgress_eq {membership : MembershipBook} {watermarks : WatermarkBook}
    {journal : Journal} {result : MembershipProgress}
    (h : membership.progress Oracle.none watermarks journal.lastVersion = .ok result) :
    compactionProgress (some journal) (some membership) (some watermarks) = result := by
  unfold compactionProgress
  simp only [Option.map_some, Option.getD_some, h]

/-- With every part at hand the status is unblocked exactly if the fence is open. -/
theorem compactionStatus_iff {o : Oracle} (hlive : ∀ i, o (.ctxErr i) = .proceed)
    (journal : Journal) (membership : MembershipBook) (watermarks : WatermarkBook) :
    (compactionStatus (some journal) (some membership) (some watermarks)
        (compactionProgress (some journal) (some membership) (some watermarks))).1 = false ↔
      journal.floor < journal.lastVersion ∧
        ∃ versions, membership.watermarksAt o watermarks journal.lastVersion = .ok versions := by
  obtain ⟨result, hrun, hconfigured, hmembers, htarget, hcount, _⟩ :=
    MembershipBook.progress_live (o := Oracle.none) (fun _ => rfl) membership watermarks
      journal.lastVersion
  rw [compactionProgress_eq hrun, MembershipBook.watermarksAt_live hlive]
  unfold compactionStatus
  simp only [hconfigured, hmembers, htarget, Version.compare_le_zero]
  by_cases hprogress : journal.floor < journal.lastVersion
  · have hnonzero := Version.not_isZero_of_lt hprogress
    rw [if_neg hnonzero] at hcount
    rw [hcount, if_neg (not_le.mpr hprogress)]
    constructor
    · intro h
      split_ifs at h with hmissing hbehind
      rw [not_not, acknowledging_eq_length] at hbehind
      exact ⟨hprogress, hnonzero, by simpa using hmissing, hbehind⟩
    · rintro ⟨_, _, hconfigured, hall⟩
      rw [if_neg (by simp [hconfigured]), if_neg (not_not.mpr (acknowledging_eq_length.mpr hall))]
  · rw [if_pos (not_lt.mp hprogress)]
    constructor
    · intro h
      split_ifs at h
    · rintro ⟨hlt, _⟩
      exact absurd hlt hprogress

/-- The reported status is the fence that a compaction enforces.  Whatever parts of
the runtime there are, the status is unblocked exactly if `compact` gets its
evidence; the evidence is the watermark of each member, none behind the target.  The
minimum that is reported is the least watermark of the members, and the members at
the target are counted exactly; at the zero target none is counted. -/
theorem compaction_status_exact {o : Oracle} (hlive : ∀ i, o (.ctxErr i) = .proceed)
    (journal : Option Journal) (membership : Option MembershipBook)
    (watermarks : Option WatermarkBook) :
    ((compactionStatus journal membership watermarks
        (compactionProgress journal membership watermarks)).1 = false ↔
      ∃ versions, compactionEvidence o journal membership watermarks = .ok versions) ∧
    ∀ j m w, journal = some j → membership = some m → watermarks = some w →
      (∀ versions, compactionEvidence o journal membership watermarks = .ok versions →
        versions = m.members.map w.watermark ∧ ∀ v ∈ versions, j.lastVersion ≤ v) ∧
      (m.members ≠ [] → IsLeast (watermarksOf w m.members)
        (compactionProgress journal membership watermarks).minimum) ∧
      (m.members = [] →
        (compactionProgress journal membership watermarks).minimum = Version.zero) ∧
      (¬j.lastVersion.IsZero →
        (compactionProgress journal membership watermarks).acknowledged =
          acknowledging w j.lastVersion m.members) ∧
      (j.lastVersion.IsZero →
        (compactionProgress journal membership watermarks).acknowledged = 0) := by
  constructor
  · cases membership with
    | none =>
      simp [compactionStatus, compactionEvidence]
    | some m =>
      cases watermarks with
      | none => simp [compactionStatus, compactionEvidence]
      | some w =>
        cases journal with
        | none => simp [compactionStatus, compactionEvidence]
        | some j =>
          rw [compactionStatus_iff hlive]
          unfold compactionEvidence
          simp only [except_guard_ok, Version.compare_le_zero, not_le, exists_and_left]
  · rintro j m w rfl rfl rfl
    obtain ⟨result, hrun, _, _, _, hcount, hempty, hleast⟩ :=
      MembershipBook.progress_live (o := Oracle.none) (fun _ => rfl) m w j.lastVersion
    rw [compactionProgress_eq hrun]
    refine ⟨?_, hleast, hempty, ?_, ?_⟩
    · intro versions hevidence
      unfold compactionEvidence at hevidence
      rw [except_guard_ok] at hevidence
      exact (MembershipBook.watermarksAt_ok hevidence.2).2
    · intro hnonzero
      rw [hcount, if_neg hnonzero]
    · intro hzero
      rw [hcount, if_pos hzero]

namespace Sample

/-- One member, which has acknowledged nothing. -/
def oneMember : MembershipBook :=
  (MembershipBook.new "members" ⟨0, 0, 0⟩).withMembers [ascii "replica"]

def noWatermarks : WatermarkBook := WatermarkBook.new "watermarks" ⟨0, 0, 0⟩

end Sample

open Sample in
/-- The member is behind a journal of two records, and the status says so. -/
theorem compaction_status_exact_sample :
    (compactionStatus (some twoRecords.obj) (some oneMember) (some noWatermarks)
        (compactionProgress (some twoRecords.obj) (some oneMember) (some noWatermarks))).1 =
      true ∧
    IsLeast (watermarksOf noWatermarks oneMember.members)
      (compactionProgress (some twoRecords.obj) (some oneMember) (some noWatermarks)).minimum := by
  obtain ⟨hstatus, hparts⟩ := compaction_status_exact (o := Oracle.none) (fun _ => rfl)
    (some twoRecords.obj) (some oneMember) (some noWatermarks)
  obtain ⟨_, hleast, _⟩ := hparts _ _ _ rfl rfl rfl
  refine ⟨?_, hleast (by decide)⟩
  rw [← Bool.not_eq_false, hstatus]
  rintro ⟨versions, hevidence⟩
  have hnone : (compactionEvidence Oracle.none (some twoRecords.obj) (some oneMember)
      (some noWatermarks)).toOption = none := by decide +kernel
  rw [hevidence] at hnone
  cases hnone

open Sample in
/-- Before the first record the member is at the target, and is not counted. -/
theorem zero_target_uncounted :
    (compactionProgress (some opened.obj) (some oneMember) (some noWatermarks)).acknowledged = 0 ∧
      acknowledging noWatermarks opened.obj.lastVersion oneMember.members = 1 := by
  decide +kernel

end StreamHive.Lifecycle
