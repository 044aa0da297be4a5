import StreamHive.Lifecycle.CheckpointFile
import StreamHive.Lifecycle.Replacement

/-!
# Compaction and snapshot installation

Both operations are a list of checks followed by the replacement of the two
files.  `Journal.Compactable` and `Journal.Installable` say what the checks
establish.  A compactable request lists exactly the state that the base
checkpoint and the records up to the watermark leave, so that cutting the log
there loses nothing.

## Main results

* `Journal.compactionCheckpoint_eq_ok` — the checks of compaction, decided by
  `Journal.Compactable`;
* `Journal.compact_cases`, `Journal.installSnapshot_cases` — each operation is
  refused with nothing changed or is `replaceFiles`;
* `compact_preserves_state` — compaction does not change what is recovered.
-/

namespace StreamHive.Lifecycle

open Verified ByteString Effect FileSystem Log

/-! ## The checks of compaction -/

/-- The records of the base checkpoint, none without one. -/
def CompactionRequest.baseRecords (request : CompactionRequest) : List Record :=
  (request.base.map Checkpoint.records).getD []

/-- The checkpoint that a compaction writes. -/
def CompactionRequest.checkpoint (request : CompactionRequest) : Checkpoint :=
  ⟨request.watermark, request.records⟩

/-- The base is a valid checkpoint at the journal floor; it may be missing at the
zero floor. -/
def Journal.BaseMatches (S : Stdlib) (j : Journal) : Option Checkpoint → Prop
  | none => j.floor = Version.zero
  | some base =>
    base.watermark = j.floor ∧ CheckpointRecords S j.limits base.watermark base.records

/-- What the checks of compaction establish. -/
structure Journal.Compactable (S : Stdlib) (j : Journal) (request : CompactionRequest) :
    Prop where
  path : request.checkpointPath ≠ j.path
  above : j.floor < request.watermark
  below : request.watermark ≤ j.lastVersion
  peers : ∀ w ∈ request.peerWatermarks, request.watermark ≤ w
  base : j.BaseMatches S request.base
  progress : upTo Record.version request.watermark j.records ≠ []
  valid : ∀ r ∈ upTo Record.version request.watermark j.records, r.Valid S j.limits
  state : tableOf request.records =
    tableOf (request.baseRecords ++ upTo Record.version request.watermark j.records)
  writable : request.checkpoint.Writable S j.limits

namespace Journal

variable {S : Stdlib} {j : Journal} {request : CompactionRequest}

theorem BaseMatches.records (h : j.BaseMatches S request.base) :
    CheckpointRecords S j.limits j.floor request.baseRecords := by
  unfold CompactionRequest.baseRecords
  cases hbase : request.base with
  | none => exact ⟨fun _ => rfl, by simp, by simp, List.Pairwise.nil⟩
  | some base =>
    rw [hbase] at h
    obtain ⟨hfloor, hrecords⟩ := h
    rw [← hfloor]
    exact hrecords

theorem compactionBase_eq_ok {base : Option Checkpoint} {c : Checkpoint} :
    j.compactionBase S base = .ok c ↔
      j.BaseMatches S base ∧
        c = (base.getD ⟨Version.zero, []⟩).normal := by
  unfold compactionBase
  by_cases hfloor : j.floor.IsZero
  · have hzero : j.floor = Version.zero := hfloor
    rw [if_pos hfloor]
    cases base with
    | none => simp [BaseMatches, hzero, Checkpoint.normal, eq_comm]; rfl
    | some base =>
      simp only [BaseMatches, Option.getD_some]
      rw [except_bind_ok, hzero]
      constructor
      · rintro ⟨v, hv, h⟩
        obtain ⟨hrecords, rfl⟩ := normalizeCheckpoint_eq_ok.mp hv
        rw [except_guard_ok] at h
        obtain ⟨hw, h⟩ := h
        cases h
        exact ⟨⟨not_not.mp hw, hrecords⟩, rfl⟩
      · rintro ⟨⟨hw, hrecords⟩, rfl⟩
        refine ⟨base.normal, normalizeCheckpoint_eq_ok.mpr ⟨hrecords, rfl⟩, ?_⟩
        rw [except_guard_ok]
        exact ⟨not_not.mpr hw, rfl⟩
  · rw [if_neg hfloor]
    cases base with
    | none =>
      simp only [BaseMatches]
      constructor
      · intro h
        cases h
      · rintro ⟨hzero, _⟩
        exact absurd hzero hfloor
    | some base =>
      simp only [BaseMatches, Option.getD_some]
      rw [except_bind_ok]
      constructor
      · rintro ⟨v, hv, h⟩
        obtain ⟨hrecords, rfl⟩ := normalizeCheckpoint_eq_ok.mp hv
        rw [except_guard_ok] at h
        obtain ⟨hw, h⟩ := h
        cases h
        exact ⟨⟨not_not.mp hw, hrecords⟩, rfl⟩
      · rintro ⟨⟨hw, hrecords⟩, rfl⟩
        refine ⟨base.normal, normalizeCheckpoint_eq_ok.mpr ⟨hrecords, rfl⟩, ?_⟩
        rw [except_guard_ok]
        exact ⟨not_not.mpr hw, rfl⟩

theorem compactionPrefix_eq (j : Journal) (w : Version) :
    j.compactionPrefix w = upTo Record.version w j.records := takeWhile_upTo j.log.ascending w

/-- The table of the normal base and the scanned records is that of the base as
given and the records up to the watermark. -/
theorem tableOf_base (request : CompactionRequest) (rs : List Record) :
    tableOf ((request.base.getD ⟨Version.zero, []⟩).normal.records ++ rs) =
      tableOf (request.baseRecords ++ rs) := by
  unfold CompactionRequest.baseRecords
  cases request.base with
  | none => rfl
  | some base => exact KeyedMap.view_resume base.records rs

/-- The replay of compaction succeeds exactly on valid records. -/
theorem compactionState_eq_ok (h : j.BaseMatches S request.base) {state : Store} :
    j.compactionState S (request.base.getD ⟨Version.zero, []⟩).normal request.watermark =
        .ok state ↔
      (∀ r ∈ upTo Record.version request.watermark j.records, r.Valid S j.limits) ∧
        state = ⟨j.limits.normalized, tableOf (request.baseRecords ++
          upTo Record.version request.watermark j.records)⟩ := by
  have hbase : CheckpointRecords S j.limits j.floor
      (request.base.getD ⟨Version.zero, []⟩).normal.records := by
    have hrecords := h.records
    unfold CompactionRequest.baseRecords at hrecords
    cases hb : request.base with
    | none =>
      rw [hb] at hrecords
      exact hrecords
    | some base =>
      rw [hb] at hrecords
      exact hrecords.values
  have hasc := j.log.ascending.upTo request.watermark
  have habove : ∀ r ∈ upTo Record.version request.watermark j.records,
      j.floor < r.version := fun r hr => j.log.above r (mem_upTo.mp hr).1
  have hreplay : j.compactionState S (request.base.getD ⟨Version.zero, []⟩).normal
      request.watermark = .ok state ↔
        (Store.new j.limits).replay S
          ((request.base.getD ⟨Version.zero, []⟩).normal.records ++
            upTo Record.version request.watermark j.records) = .ok state := by
    unfold compactionState
    rw [compactionPrefix_eq, Store.replay_append, except_bind_ok, except_bind_ok]
    simp only [except_mapError_ok]
  rw [hreplay]
  constructor
  · intro hok
    have hvalid : ∀ r ∈ upTo Record.version request.watermark j.records,
        r.Valid S j.limits := by
      intro r hr
      have hr' := Store.valid_of_replay hok r (List.mem_append_right _ hr)
      simpa [Store.new] using hr'
    rw [hbase.replay_append hasc habove hvalid] at hok
    cases hok
    rw [tableOf_base]
    exact ⟨hvalid, rfl⟩
  · rintro ⟨hvalid, rfl⟩
    rw [hbase.replay_append hasc habove hvalid, tableOf_base]

/-- Compaction writes a checkpoint exactly for compactable requests. -/
theorem compactionCheckpoint_eq_ok (hS : S.Lawful) {bytes : Bytes} :
    j.compactionCheckpoint S request = .ok bytes ↔
      j.Compactable S request ∧ bytes = checkpointBytes S request.checkpoint := by
  unfold compactionCheckpoint
  simp only [except_guard_ok, except_bind_ok, Version.compare_le_zero, not_le,
    Version.compare_pos, not_lt, List.any_eq_true, decide_eq_true_eq,
    Version.compare_lt_zero, not_exists, not_and, compactionPrefix_eq,
    compactionBase_eq_ok, normalizeCheckpoint_eq_ok]
  constructor
  · rintro ⟨hpath, habove, hbelow, hpeers, base, ⟨hbase, rfl⟩, c, ⟨hrecords, rfl⟩,
      state, hstate, hprogress, hequal, hencode⟩
    obtain ⟨hvalid, rfl⟩ := (compactionState_eq_ok hbase).mp hstate
    obtain ⟨hwritable, rfl⟩ := (encodeCheckpoint_eq_ok hS).mp hencode
    have hvalues : (tableOf (request.baseRecords ++
        upTo Record.version request.watermark j.records)).values =
          (tableOf request.records).values := by
      simpa [Store.snapshot, Checkpoint.normal] using hequal
    refine ⟨⟨hpath, habove, hbelow, hpeers, hbase, ?_, hvalid, ?_, ?_⟩, ?_⟩
    · intro hnil
      exact hprogress (List.length_eq_zero_iff.mpr hnil)
    · have hrebuild := congrArg tableOf hvalues
      rw [show tableOf _ = _ from KeyedMap.putAll_values _,
        show tableOf (tableOf request.records).values = _ from
          KeyedMap.putAll_values _] at hrebuild
      exact hrebuild.symm
    · exact Checkpoint.Writable.of_normal hrecords hwritable
    · exact checkpointBytes_normal S request.checkpoint
  · rintro ⟨h, rfl⟩
    refine ⟨h.path, h.above, h.below, h.peers, _, ⟨h.base, rfl⟩, _,
      ⟨h.writable.records, rfl⟩, _, (compactionState_eq_ok h.base).mpr ⟨h.valid, rfl⟩,
      ?_, ?_, ?_⟩
    · intro hzero
      exact h.progress (List.length_eq_zero_iff.mp hzero)
    · simp [Store.snapshot, Checkpoint.normal, h.state]
    · refine (encodeCheckpoint_eq_ok hS).mpr ⟨h.writable.normal, ?_⟩
      exact (checkpointBytes_normal S request.checkpoint).symm

/-! ## The two operations -/

/-- A compaction is refused with nothing changed, or replaces the two files. -/
theorem compact_cases (hS : S.Lawful) (F : Faults) (request : CompactionRequest)
    (s : OnDisk Journal) :
    (∃ e, compact S F request s = .error e s ∧
        ¬ (F .entry (.ctxErr 0) = .proceed ∧ request.checkpointPath ≠ "" ∧
          s.obj.Compactable S request ∧ ∃ file, s.obj.ensureOpen = .ok file)) ∨
      (request.checkpointPath ≠ "" ∧ s.obj.Compactable S request ∧
        ∃ file, s.obj.ensureOpen = .ok file ∧
          compact S F request s = replaceFiles S F request.checkpointPath
            (checkpointBytes S request.checkpoint) file (s.obj.log.cut request.watermark) s) := by
  unfold compact
  by_cases hpath : request.checkpointPath = ""
  · exact .inl ⟨_, run_bind_error (run_raiseIf_error hpath), fun h => h.2.1 hpath⟩
  rw [run_bind_ok (run_raiseIf hpath)]
  rcases ctxErr_cases (F .entry) 0 s with ⟨hctx, e, he⟩ | ⟨_, hx⟩
  · exact .inl ⟨e, run_bind_error he, fun h => hctx h.1⟩
  rw [run_bind_ok hx, run_bind_get]
  cases hopen : s.obj.ensureOpen with
  | error e =>
    refine .inl ⟨e, run_bind_error (run_attempt_error rfl), ?_⟩
    rintro ⟨_, _, _, file, hfile⟩
    cases hfile
  | ok file =>
  rw [run_bind_ok (run_attempt rfl)]
  cases hcheck : s.obj.compactionCheckpoint S request with
  | error e =>
    refine .inl ⟨e, run_bind_error (run_attempt_error rfl), ?_⟩
    rintro ⟨_, _, hok, _⟩
    rw [(compactionCheckpoint_eq_ok hS).mpr ⟨hok, rfl⟩] at hcheck
    cases hcheck
  | ok bytes =>
  obtain ⟨hok, rfl⟩ := (compactionCheckpoint_eq_ok hS).mp hcheck
  refine .inr ⟨hpath, hok, file, rfl, ?_⟩
  rw [run_bind_ok (run_attempt rfl)]
  rfl

/-- What the checks of a snapshot installation establish. -/
structure Installable (S : Stdlib) (j : Journal) (checkpointPath : String)
    (checkpoint : Checkpoint) : Prop where
  path : checkpointPath ≠ j.path
  fresh : j.lastVersion ≤ checkpoint.watermark
  writable : checkpoint.Writable S j.limits

theorem installCheckpoint_eq_ok {checkpointPath : String} {checkpoint c : Checkpoint} :
    j.installCheckpoint S checkpointPath checkpoint = .ok c ↔
      checkpointPath ≠ j.path ∧ j.lastVersion ≤ checkpoint.watermark ∧
        CheckpointRecords S j.limits checkpoint.watermark checkpoint.records ∧
        c = checkpoint.normal := by
  unfold installCheckpoint
  simp only [except_guard_ok, except_bind_ok, normalizeCheckpoint_eq_ok,
    Version.compare_lt_zero, not_lt]
  constructor
  · rintro ⟨hne, c', ⟨hrecords, rfl⟩, hfresh, hc⟩
    cases hc
    exact ⟨hne, hfresh, hrecords, rfl⟩
  · rintro ⟨hne, hfresh, hrecords, rfl⟩
    exact ⟨hne, checkpoint.normal, ⟨hrecords, rfl⟩, hfresh, rfl⟩

/-- An installation is refused with nothing changed, or replaces the two files. -/
theorem installSnapshot_cases (hS : S.Lawful) (F : Faults) (checkpointPath : String)
    (checkpoint : Checkpoint) (s : OnDisk Journal) :
    (∃ e, installSnapshot S F checkpointPath checkpoint s = .error e s ∧
        ¬ (F .install (.ctxErr 0) = .proceed ∧ checkpointPath ≠ "" ∧
          s.obj.Installable S checkpointPath checkpoint ∧
          ∃ file, s.obj.ensureOpen = .ok file)) ∨
      (checkpointPath ≠ "" ∧ s.obj.Installable S checkpointPath checkpoint ∧
        ∃ file, s.obj.ensureOpen = .ok file ∧
          installSnapshot S F checkpointPath checkpoint s = replaceFiles S F
            checkpointPath (checkpointBytes S checkpoint) file
            (Segment.reset Record.version checkpoint.watermark) s) := by
  unfold installSnapshot
  by_cases hpath : checkpointPath = ""
  · exact .inl ⟨_, run_bind_error (run_raiseIf_error hpath), fun h => h.2.1 hpath⟩
  rw [run_bind_ok (run_raiseIf hpath)]
  rcases ctxErr_cases (F .install) 0 s with ⟨hctx, e, he⟩ | ⟨_, hx⟩
  · exact .inl ⟨e, run_bind_error he, fun h => hctx h.1⟩
  rw [run_bind_ok hx, run_bind_get]
  cases hopen : s.obj.ensureOpen with
  | error e =>
    refine .inl ⟨e, run_bind_error (run_attempt_error rfl), ?_⟩
    rintro ⟨_, _, _, file, hfile⟩
    cases hfile
  | ok file =>
  rw [run_bind_ok (run_attempt rfl)]
  cases hcheck : s.obj.installCheckpoint S checkpointPath checkpoint with
  | error e =>
    refine .inl ⟨e, run_bind_error (run_attempt_error rfl), ?_⟩
    rintro ⟨_, _, hok, _⟩
    rw [installCheckpoint_eq_ok.mpr ⟨hok.path, hok.fresh, hok.writable.records, rfl⟩]
      at hcheck
    cases hcheck
  | ok c =>
  obtain ⟨hne, hfresh, hrecords, rfl⟩ := installCheckpoint_eq_ok.mp hcheck
  rw [run_bind_ok (run_attempt rfl)]
  rcases saveCheckpoint_cases hS (F .checkpoint) checkpointPath checkpoint.normal
      s.obj.limits s.fs with ⟨e, he, hnot⟩ | ⟨⟨_, hwritable⟩, hsave⟩
  · refine .inl ⟨e, run_bind_error (run_onFS_error he), ?_⟩
    rintro ⟨_, _, hok, _⟩
    exact hnot ⟨hpath, hok.writable.normal⟩
  refine .inr ⟨hpath, ⟨hne, hfresh, .of_normal hrecords hwritable⟩, file, rfl, ?_⟩
  rw [checkpointBytes_normal] at hsave
  unfold replaceFiles
  have hsame : (onFS (saveCheckpoint S (F .checkpoint) checkpointPath
      checkpoint.normal s.obj.limits) : EStateM Error (OnDisk Journal) Unit) s =
        onFS (atomicWrite (F .checkpoint) checkpointPath (checkpointBytes S checkpoint)) s := by
    unfold onFS zoom
    rw [hsave]
  change EStateM.bind _ _ s = EStateM.bind _ _ s
  unfold EStateM.bind
  rw [hsame]
  rfl

/-- A failed installation keeps the log in memory. -/
theorem installSnapshot_error_log (hS : S.Lawful) {F : Faults} {checkpointPath : String}
    {checkpoint : Checkpoint} {s s' : OnDisk Journal} {e : Error}
    (h : installSnapshot S F checkpointPath checkpoint s = .error e s') :
    s'.obj.log = s.obj.log ∧ s'.obj.limits = s.obj.limits := by
  rcases installSnapshot_cases hS F checkpointPath checkpoint s with ⟨e', he, _⟩ |
    ⟨_, _, file, _, heq⟩
  · rw [he] at h
    cases h
    exact ⟨rfl, rfl⟩
  · rw [heq] at h
    rcases replaceFiles_error_obj h with hobj | hobj <;> rw [hobj] <;> exact ⟨rfl, rfl⟩

/-- A successful installation leaves an empty log at the watermark. -/
theorem installSnapshot_ok_log (hS : S.Lawful) {F : Faults} {checkpointPath : String}
    {checkpoint : Checkpoint} {s s' : OnDisk Journal}
    (h : installSnapshot S F checkpointPath checkpoint s = .ok () s') :
    s'.obj.log = Segment.reset Record.version checkpoint.watermark ∧
      s'.obj.limits = s.obj.limits := by
  rcases installSnapshot_cases hS F checkpointPath checkpoint s with ⟨e', he, _⟩ |
    ⟨_, _, file, _, heq⟩
  · rw [he] at h
    cases h
  · rw [heq] at h
    obtain ⟨_, _, _, _, _, hobj, _⟩ := replaceFiles_ok h
    rw [hobj]
    exact ⟨rfl, rfl⟩

/-! ## What compaction preserves -/

/-- A compactable request resumes to the state that was there before. -/
theorem Compactable.replay (h : j.Compactable S request) :
    (Store.new j.limits).replay S
        (request.checkpoint.normal.records ++ after Record.version request.watermark j.records) =
      (Store.new j.limits).replay S (request.baseRecords ++ j.records) := by
  have hnormal := h.writable.records.values.replay_append
    (Ascending.nil : Ascending Record.version []) (by simp) (by simp)
  have hbase := h.base.records.replay_append (j.log.ascending.upTo request.watermark)
    (fun r hr => j.log.above r (mem_upTo.mp hr).1) h.valid
  have hsplit := upTo_append_after j.log.ascending request.watermark
  have htable : tableOf request.checkpoint.normal.records = tableOf request.records :=
    Checkpoint.tableOf_normal request.checkpoint
  rw [List.append_nil] at hnormal
  change (Store.new j.limits).replay S request.checkpoint.normal.records =
    .ok ⟨_, tableOf request.checkpoint.normal.records⟩ at hnormal
  rw [htable, h.state] at hnormal
  change _ ++ _ = j.records at hsplit
  calc (Store.new j.limits).replay S (request.checkpoint.normal.records ++
        after Record.version request.watermark j.records)
      = Store.replay S ⟨j.limits.normalized, tableOf (request.baseRecords ++
          upTo Record.version request.watermark j.records)⟩
          (after Record.version request.watermark j.records) := by
        rw [Store.replay_append, hnormal]
        rfl
    _ = (Store.new j.limits).replay S ((request.baseRecords ++
          upTo Record.version request.watermark j.records) ++
          after Record.version request.watermark j.records) := by
        rw [Store.replay_append, hbase]
        rfl
    _ = (Store.new j.limits).replay S (request.baseRecords ++ j.records) := by
        rw [List.append_assoc, hsplit]

/-- A compactable request lists the replayed state. -/
theorem Compactable.perm (h : j.Compactable S request) :
    ∃ state, (Store.new j.limits).replay S (request.baseRecords ++
        upTo Record.version request.watermark j.records) = .ok state ∧
      request.records.Perm state.snapshot := by
  refine ⟨_, h.base.records.replay_append (j.log.ascending.upTo request.watermark)
    (fun r hr => j.log.above r (mem_upTo.mp hr).1) h.valid, ?_⟩
  unfold Store.snapshot
  rw [← h.state]
  exact h.writable.records.perm_values

end Journal

namespace Sample

/-- The journal after both records have been appended. -/
def twoRecords : OnDisk Journal :=
  finalState (Journal.append goStdlib Oracle.none second
    (finalState (Journal.append goStdlib Oracle.none first opened)))

/-- Keep the first record in the checkpoint and the second in the journal. -/
def compactFirst : CompactionRequest :=
  ⟨"checkpoint", first.version, [first], none, [second.version]⟩

end Sample

end StreamHive.Lifecycle
