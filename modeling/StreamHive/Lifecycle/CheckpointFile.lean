import StreamHive.Lifecycle.GoStdlib

/-!
# Checkpoint files

A checkpoint is written in normal form: its records in key order, in one
checksummed envelope.  This module says which checkpoints the program agrees to
write and that reading the file back returns the normal form.

## Main results

* `encodeCheckpoint_eq_ok` — encoding succeeds exactly for `Writable` checkpoints;
* `decodeCheckpoint_bytes`, `loadCheckpoint_eq_ok` — the written file is read back;
* `checkpoint_files_canonical` — the file depends on the set of records alone, and
  whatever is read from any file is sorted, valid and bounded by its watermark.
-/

namespace StreamHive.Lifecycle

open Verified ByteString Effect FileSystem

variable {S : Stdlib} {limits : Limits} {c : Checkpoint}

/-- The checkpoint with its records in key order. -/
def Checkpoint.normal (c : Checkpoint) : Checkpoint :=
  ⟨c.watermark, (tableOf c.records).values⟩

@[simp] theorem Checkpoint.normal_watermark (c : Checkpoint) :
    c.normal.watermark = c.watermark := rfl

@[simp] theorem Checkpoint.normal_normal (c : Checkpoint) : c.normal.normal = c.normal := by
  unfold Checkpoint.normal
  rw [CheckpointRecords.view_values]

@[simp] theorem Checkpoint.tableOf_normal (c : Checkpoint) :
    tableOf c.normal.records = tableOf c.records := KeyedMap.putAll_values _

/-- The bytes of a checkpoint file. -/
def checkpointBytes (S : Stdlib) (c : Checkpoint) : Bytes :=
  envelope S (S.checkpoint.marshal c.normal)

/-- The checkpoints that may be written under the limits. -/
structure Checkpoint.Writable (S : Stdlib) (limits : Limits) (c : Checkpoint) : Prop where
  records : CheckpointRecords S limits c.watermark c.records
  word : (S.checkpoint.marshal c.normal).length ≤ maxUint32
  bytes : (checkpointBytes S c).length ≤ limits.normalized.maxCheckpointBytes

theorem checkpointRecords_normalized {w : Version} {records : List Record} :
    CheckpointRecords S limits.normalized w records ↔
      CheckpointRecords S limits w records := by
  constructor
  · intro h
    exact ⟨h.zero, fun r hr => by simpa using h.valid r hr, h.bounded, h.distinct⟩
  · intro h
    exact ⟨h.zero, fun r hr => by simpa using h.valid r hr, h.bounded, h.distinct⟩

theorem normalizeCheckpoint_eq_ok {c' : Checkpoint} :
    normalizeCheckpoint S c limits = .ok c' ↔
      CheckpointRecords S limits c.watermark c.records ∧ c' = c.normal := by
  unfold normalizeCheckpoint
  rw [except_bind_ok]
  constructor
  · rintro ⟨records, hrecords, h⟩
    obtain ⟨hok, rfl⟩ := normalizeCheckpointRecords_eq_ok.mp hrecords
    cases h
    exact ⟨checkpointRecords_normalized.mp hok, rfl⟩
  · rintro ⟨hok, rfl⟩
    exact ⟨_, (checkpointRecords_normalized.mpr hok).normalize, rfl⟩

theorem encodeCheckpoint_eq_ok (hS : S.Lawful) {bytes : Bytes} :
    encodeCheckpoint S c limits = .ok bytes ↔
      c.Writable S limits ∧ bytes = checkpointBytes S c := by
  unfold encodeCheckpoint
  rw [except_bind_ok]
  constructor
  · rintro ⟨c', hnormal, h⟩
    obtain ⟨hrecords, rfl⟩ := normalizeCheckpoint_eq_ok.mp hnormal
    rw [except_bind_ok] at h
    obtain ⟨bytes', henvelope, h⟩ := h
    obtain ⟨_, hword, rfl⟩ := encodeEnvelope_eq_ok.mp henvelope
    rw [except_guard_ok] at h
    obtain ⟨hlen, h⟩ := h
    cases h
    exact ⟨⟨checkpointRecords_normalized.mp hrecords, hword, not_lt.mp hlen⟩, rfl⟩
  · rintro ⟨h, rfl⟩
    refine ⟨c.normal, normalizeCheckpoint_eq_ok.mpr
      ⟨checkpointRecords_normalized.mpr h.records, rfl⟩, ?_⟩
    rw [except_bind_ok]
    refine ⟨checkpointBytes S c, encodeEnvelope_eq_ok.mpr
      ⟨hS.checkpoint.marshal_ne_nil _, h.word, rfl⟩, ?_⟩
    rw [except_guard_ok]
    exact ⟨not_lt.mpr h.bytes, rfl⟩

namespace Checkpoint.Writable

theorem normal (h : c.Writable S limits) : c.normal.Writable S limits where
  records := h.records.values
  word := by
    rw [normal_normal]
    exact h.word
  bytes := by
    unfold checkpointBytes
    rw [normal_normal]
    exact h.bytes

theorem of_normal (hrecords : CheckpointRecords S limits c.watermark c.records)
    (h : c.normal.Writable S limits) : c.Writable S limits where
  records := hrecords
  word := by
    have hword := h.word
    rwa [normal_normal] at hword
  bytes := by
    have hbytes := h.bytes
    unfold checkpointBytes at hbytes
    rwa [normal_normal] at hbytes

end Checkpoint.Writable

@[simp] theorem checkpointBytes_normal (S : Stdlib) (c : Checkpoint) :
    checkpointBytes S c.normal = checkpointBytes S c := by
  unfold checkpointBytes
  rw [Checkpoint.normal_normal]

/-- The bytes of a writable checkpoint decode to its normal form. -/
theorem decodeCheckpoint_bytes (hS : S.Lawful) (h : c.Writable S limits) :
    decodeCheckpoint S (checkpointBytes S c) limits.normalized = .ok c.normal := by
  have hbytes := h.bytes
  have hlen : (S.checkpoint.marshal c.normal).length ≤ (checkpointBytes S c).length := by
    unfold checkpointBytes
    rw [length_envelope]
    omega
  have hdecode := decodeEnvelope_envelope S (hS.checkpoint.marshal_ne_nil c.normal) h.word
    (show ((S.checkpoint.marshal c.normal).length : Int) ≤
      limits.normalized.maxCheckpointBytes by omega)
    .checkpointCorrupt .checkpointChecksum
  have hjson := hS.checkpoint.decode_marshal c.normal h.normal.records.clean
  unfold decodeCheckpoint
  rw [except_bind_ok]
  refine ⟨_, hdecode, ?_⟩
  rw [except_guard_ok]
  refine ⟨by simp [checkpointBytes], ?_⟩
  rw [hjson]
  refine normalizeCheckpoint_eq_ok.mpr ⟨?_, (Checkpoint.normal_normal c).symm⟩
  exact checkpointRecords_normalized.mpr h.normal.records

/-! ## What a checkpoint file holds -/

/-- The checkpoint in the contents of its file. -/
def checkpointOf (S : Stdlib) (limits : Limits) : Option Bytes → Except Error Checkpoint
  | none => .error .notExist
  | some data =>
    if data.length > limits.normalized.maxCheckpointBytes then
      .error .checkpointTooLarge
    else
      decodeCheckpoint S data limits.normalized

/-- The contents say that this is the checkpoint, or that there is none. -/
def CheckpointFile (S : Stdlib) (limits : Limits) (data : Option Bytes) :
    Option Checkpoint → Prop
  | some c => checkpointOf S limits data = .ok c
  | none => ∃ e, checkpointOf S limits data = .error e ∧ e.is .notExist = true

section CheckpointFile

variable {path : String} {fs : FS}

/-- Loading fails on the way, or gives what the file holds. -/
theorem loadCheckpoint_cases (S : Stdlib) (o : Oracle) (path : String) (limits : Limits)
    (fs : FS) :
    (∃ e, loadCheckpoint S o path limits fs = .error e fs ∧ e.is .notExist = false ∧
        (path = "" ∨ ∃ c, o c ≠ .proceed)) ∨
      loadCheckpoint S o path limits fs =
        attempt (checkpointOf S limits (fs.read (.file path))) fs := by
  unfold loadCheckpoint
  by_cases hpath : path = ""
  · exact .inl ⟨_, run_bind_error (run_raiseIf_error hpath), rfl, .inl hpath⟩
  rw [run_bind_ok (run_raiseIf hpath)]
  have hio : ∀ {c : Call} {e : Error}, syscall o c fs = .error e fs →
      e.is .notExist = false := by
    intro c e he
    rcases (syscall_error he).2 with rfl | rfl <;> rfl
  rcases ctxErr_cases o 0 fs with ⟨hctx, e, he⟩ | ⟨_, hx⟩
  · refine .inl ⟨e, run_bind_error he, ?_, .inr ⟨_, hctx⟩⟩
    rcases (ctxErr_error he).2 with rfl | rfl <;> rfl
  rw [run_bind_ok hx]
  rcases syscall_cases o .openFile fs with ⟨hcall, e, he⟩ | ⟨_, hs⟩
  · exact .inl ⟨e, run_bind_error he, hio he, .inr ⟨_, hcall⟩⟩
  rw [run_bind_ok hs, run_bind_get]
  cases fs.read (.file path) with
  | none => exact .inr rfl
  | some data =>
  dsimp only
  rcases syscall_cases o .stat fs with ⟨hcall, e, he⟩ | ⟨_, hs⟩
  · exact .inl ⟨e, run_bind_error he, hio he, .inr ⟨_, hcall⟩⟩
  rw [run_bind_ok hs, show checkpointOf S limits (some data) =
    if data.length > limits.normalized.maxCheckpointBytes then .error .checkpointTooLarge
    else decodeCheckpoint S data limits.normalized from rfl]
  by_cases hsize : (data.length : Int) > limits.normalized.maxCheckpointBytes
  · rw [if_pos hsize]
    exact .inr (run_bind_error (run_raiseIf_error hsize))
  rw [if_neg hsize, run_bind_ok (run_raiseIf hsize)]
  rcases syscall_cases o .read fs with ⟨hcall, e, he⟩ | ⟨_, hs⟩
  · exact .inl ⟨e, run_bind_error he, hio he, .inr ⟨_, hcall⟩⟩
  · exact .inr (run_bind_ok hs)

theorem loadCheckpoint_proceed {o : Oracle} (ho : ∀ c, o c = .proceed) (hpath : path ≠ "") :
    loadCheckpoint S o path limits fs =
      attempt (checkpointOf S limits (fs.read (.file path))) fs := by
  rcases loadCheckpoint_cases S o path limits fs with ⟨_, _, _, hempty | ⟨c, hc⟩⟩ | heq
  · exact absurd hempty hpath
  · exact absurd (ho c) hc
  · exact heq

/-- A checkpoint that can be read is in normal form and within the limits. -/
theorem CheckpointFile.records {data : Option Bytes} (h : CheckpointFile S limits data (some c)) :
    CheckpointRecords S limits c.watermark c.records ∧ c.normal = c := by
  cases data with
  | none => cases h
  | some data =>
  have hfile : (if data.length > limits.normalized.maxCheckpointBytes then
      .error .checkpointTooLarge else decodeCheckpoint S data limits.normalized) = .ok c := h
  rw [except_guard_ok] at hfile
  obtain ⟨_, h⟩ := hfile
  unfold decodeCheckpoint at h
  rw [except_bind_ok] at h
  obtain ⟨payload, _, h⟩ := h
  rw [except_guard_ok] at h
  obtain ⟨_, h⟩ := h
  cases hjson : S.checkpoint.decode payload.1 with
  | one found =>
    rw [hjson] at h
    obtain ⟨hrecords, rfl⟩ := normalizeCheckpoint_eq_ok.mp h
    exact ⟨(checkpointRecords_normalized.mp hrecords).values, found.normal_normal⟩
  | malformed | second | garbage =>
    rw [hjson] at h
    cases h

/-- A written checkpoint is what its file holds. -/
theorem checkpointFile_of_bytes (hS : S.Lawful) (h : c.Writable S limits) :
    CheckpointFile S limits (some (checkpointBytes S c)) (some c.normal) := by
  show (if ((checkpointBytes S c).length : Int) > limits.normalized.maxCheckpointBytes then
    Except.error Error.checkpointTooLarge
    else decodeCheckpoint S (checkpointBytes S c) limits.normalized) = .ok c.normal
  rw [if_neg (not_lt.mpr h.bytes)]
  exact decodeCheckpoint_bytes hS h

end CheckpointFile

/-- A written checkpoint is read back in normal form. -/
theorem loadCheckpoint_eq_ok (hS : S.Lawful) {o : Oracle} (ho : ∀ c, o c = .proceed)
    {path : String} (hpath : path ≠ "") (h : c.Writable S limits) {fs : FS}
    (hread : fs.read (.file path) = some (checkpointBytes S c)) :
    loadCheckpoint S o path limits fs = .ok c.normal fs := by
  rw [loadCheckpoint_proceed ho hpath, hread]
  exact run_attempt (checkpointFile_of_bytes hS h)

/-! ## Saving a checkpoint -/

/-- Saving a writable checkpoint is one atomic write; any other is refused before
anything is written. -/
theorem saveCheckpoint_cases (hS : S.Lawful) (o : Oracle) (path : String) (c : Checkpoint)
    (limits : Limits) (fs : FS) :
    (∃ e, saveCheckpoint S o path c limits fs = .error e fs ∧
        ¬ (path ≠ "" ∧ c.Writable S limits)) ∨
      ((path ≠ "" ∧ c.Writable S limits) ∧
        saveCheckpoint S o path c limits fs = atomicWrite o path (checkpointBytes S c) fs) := by
  unfold saveCheckpoint
  by_cases hpath : path = ""
  · exact .inl ⟨_, run_bind_error (run_raiseIf_error hpath), fun h => h.1 hpath⟩
  rw [run_bind_ok (run_raiseIf hpath)]
  cases hencode : encodeCheckpoint S c limits with
  | error e =>
    refine .inl ⟨e, run_bind_error (run_attempt_error rfl), fun h => ?_⟩
    rw [(encodeCheckpoint_eq_ok hS).mpr ⟨h.2, rfl⟩] at hencode
    cases hencode
  | ok bytes =>
    obtain ⟨hwritable, rfl⟩ := (encodeCheckpoint_eq_ok hS).mp hencode
    refine .inr ⟨⟨hpath, hwritable⟩, ?_⟩
    rw [run_bind_ok (run_attempt rfl),
      run_bind_ok (run_raiseIf (not_lt.mpr hwritable.bytes))]

/-! ## The canonical form -/

theorem CheckpointRecords.of_perm {w : Version} {rs ss : List Record}
    (h : CheckpointRecords S limits w rs) (hperm : ss.Perm rs) :
    CheckpointRecords S limits w ss where
  zero := by
    intro hw
    rw [h.zero hw] at hperm
    exact hperm.eq_nil
  valid r hr := h.valid r (hperm.mem_iff.mp hr)
  bounded r hr := h.bounded r (hperm.mem_iff.mp hr)
  distinct := hperm.symm.pairwise h.distinct fun hab => Ne.symm hab

/-- The normal form forgets the order of the records. -/
theorem Checkpoint.normal_of_perm {d : Checkpoint}
    (hdistinct : c.records.Pairwise fun a b => a.key ≠ b.key)
    (hwatermark : d.watermark = c.watermark) (hperm : d.records.Perm c.records) :
    d.normal = c.normal := by
  have htable : tableOf d.records = tableOf c.records :=
    (KeyedMap.putAll_perm hperm.symm hdistinct).symm
  unfold Checkpoint.normal
  rw [hwatermark, htable]

theorem Checkpoint.Writable.of_perm {d : Checkpoint} (h : c.Writable S limits)
    (hwatermark : d.watermark = c.watermark) (hperm : d.records.Perm c.records) :
    d.Writable S limits := by
  have hnormal := Checkpoint.normal_of_perm h.records.distinct hwatermark hperm
  refine .of_normal ?_ (hnormal ▸ h.normal)
  rw [hwatermark]
  exact h.records.of_perm hperm

/-- A save that succeeds leaves the bytes of a writable checkpoint. -/
theorem saveCheckpoint_ok (hS : S.Lawful) {o : Oracle} {path : String} {fs fs' : FS}
    (h : saveCheckpoint S o path c limits fs = .ok () fs') :
    path ≠ "" ∧ c.Writable S limits ∧
      fs'.read (.file path) = some (checkpointBytes S c) := by
  rcases saveCheckpoint_cases hS o path c limits fs with
    ⟨e, he, _⟩ | ⟨⟨hpath, hwritable⟩, hwrite⟩
  · rw [he] at h
    cases h
  refine ⟨hpath, hwritable, ?_⟩
  rw [hwrite] at h
  rcases atomicWrite_cases o path (checkpointBytes S c) fs with
    ⟨e, _, he, _⟩ | ⟨e, _, he, _⟩ | ⟨fs'', hok, hreplaced, _⟩
  · rw [he] at h
    cases h
  · rw [he] at h
    cases h
  · rw [hok] at h
    cases h
    exact hreplaced.read

/-- A writable checkpoint is saved when every call is performed. -/
theorem Checkpoint.Writable.save (hS : S.Lawful) {path : String} (hpath : path ≠ "")
    (h : c.Writable S limits) (fs : FS) :
    ∃ fs', saveCheckpoint S Oracle.none path c limits fs = .ok () fs' := by
  rcases saveCheckpoint_cases hS Oracle.none path c limits fs with
    ⟨e, _, hrefused⟩ | ⟨_, hwrite⟩
  · exact absurd ⟨hpath, h⟩ hrefused
  rcases atomicWrite_cases Oracle.none path (checkpointBytes S c) fs with
    ⟨_, _, _, _, call, _, hcall⟩ | ⟨_, _, _, _, _, hsync⟩ | ⟨fs', hok, _⟩
  · exact absurd rfl hcall
  · exact absurd rfl hsync
  · exact ⟨fs', hwrite.trans hok⟩

/-- What is loaded is what the file holds. -/
theorem loadCheckpoint_ok {o : Oracle} {path : String} {fs fs' : FS}
    (h : loadCheckpoint S o path limits fs = .ok c fs') :
    CheckpointFile S limits (fs.read (.file path)) (some c) := by
  rcases loadCheckpoint_cases S o path limits fs with ⟨e, he, _⟩ | heq
  · rw [he] at h
    cases h
  · rw [heq] at h
    exact (attempt_ok.mp h).1

/-- Checkpoint files are canonical.  A saved checkpoint is read back with its
records in key order; saving its records again, in whatever order, to whatever
file, writes the same bytes.  What is read from any file at all is strictly
sorted, valid and not above its watermark. -/
theorem checkpoint_files_canonical {S : Stdlib} (hS : S.Lawful) (limits : Limits) :
    (∀ (o : Oracle) (path : String) (c : Checkpoint) (fs fs' : FS),
      saveCheckpoint S o path c limits fs = .ok () fs' →
      ∃ loaded : Checkpoint,
        loadCheckpoint S Oracle.none path limits fs' = .ok loaded fs' ∧
        loaded.watermark = c.watermark ∧ loaded.records.Perm c.records ∧
        KeyedMap.KeyAscending LogicalKey.cmp Record.key loaded.records ∧
        ∀ again : Checkpoint,
          again = loaded ∨ again.watermark = c.watermark ∧ again.records.Perm c.records →
          ∀ (path' : String) (gs : FS), path' ≠ "" →
            (∃ gs', saveCheckpoint S Oracle.none path' again limits gs = .ok () gs') ∧
            ∀ (o' : Oracle) (gs' : FS),
              saveCheckpoint S o' path' again limits gs = .ok () gs' →
                gs'.read (.file path') = fs'.read (.file path)) ∧
    ∀ (o : Oracle) (path : String) (fs fs' : FS) (loaded : Checkpoint),
      loadCheckpoint S o path limits fs = .ok loaded fs' →
        KeyedMap.KeyAscending LogicalKey.cmp Record.key loaded.records ∧
        ∀ r ∈ loaded.records, r.validate S limits = .ok () ∧ r.version ≤ loaded.watermark := by
  constructor
  · intro o path c fs fs' hsave
    obtain ⟨hpath, hwritable, hread⟩ := saveCheckpoint_ok hS hsave
    have hperm : c.normal.records.Perm c.records := hwritable.records.perm_values.symm
    refine ⟨c.normal, loadCheckpoint_eq_ok hS (fun _ => rfl) hpath hwritable hread, rfl, hperm,
      KeyedMap.values_ascending _, ?_⟩
    intro again hagain path' gs hpath'
    have hsame : again.watermark = c.watermark ∧ again.records.Perm c.records := by
      rcases hagain with rfl | hsame
      · exact ⟨rfl, hperm⟩
      · exact hsame
    refine ⟨(hwritable.of_perm hsame.1 hsame.2).save hS hpath' gs, ?_⟩
    intro o' gs' hsaved
    obtain ⟨_, _, hread'⟩ := saveCheckpoint_ok hS hsaved
    have hnormal := Checkpoint.normal_of_perm hwritable.records.distinct hsame.1 hsame.2
    rw [hread', hread]
    unfold checkpointBytes
    rw [hnormal]
  · intro o path fs fs' loaded hload
    obtain ⟨hrecords, hnormal⟩ := (loadCheckpoint_ok hload).records
    refine ⟨?_, fun r hr => ⟨hrecords.valid r hr, hrecords.bounded r hr⟩⟩
    rw [← hnormal]
    exact KeyedMap.values_ascending _

namespace Sample

/-- Two records, not in key order. -/
def outOfOrder : Checkpoint := ⟨second.version, [second, first]⟩

theorem outOfOrder_writable : outOfOrder.Writable goStdlib Limits.unset where
  records := ⟨by decide, by decide +kernel, by decide, by decide⟩
  word := by decide +kernel
  bytes := by
    unfold checkpointBytes
    rw [length_envelope]
    decide +kernel

end Sample

open Sample in
/-- Two records are saved, read back in key order, and saved again. -/
theorem checkpoint_files_canonical_sample :
    ∃ fs', saveCheckpoint goStdlib Oracle.none "checkpoint" outOfOrder Limits.unset FS.empty =
        .ok () fs' ∧
      ∃ loaded : Checkpoint,
        loadCheckpoint goStdlib Oracle.none "checkpoint" Limits.unset fs' = .ok loaded fs' ∧
        loaded.records.Perm [second, first] ∧
        (∀ gs', saveCheckpoint goStdlib Oracle.none "copy" loaded Limits.unset fs' = .ok () gs' →
          gs'.read (.file "copy") = fs'.read (.file "checkpoint")) ∧
        ∀ r ∈ loaded.records, r.version ≤ loaded.watermark := by
  obtain ⟨fs', hsave⟩ := outOfOrder_writable.save goStdlib_lawful
    (show "checkpoint" ≠ "" by decide) FS.empty
  obtain ⟨hsaved, hloaded⟩ := checkpoint_files_canonical goStdlib_lawful Limits.unset
  obtain ⟨loaded, hload, _, hperm, _, hagain⟩ := hsaved _ _ _ _ _ hsave
  refine ⟨fs', hsave, loaded, hload, hperm, ?_, ?_⟩
  · exact (hagain loaded (.inl rfl) "copy" fs' (by decide)).2 Oracle.none
  · exact fun r hr => ((hloaded _ _ _ _ _ hload).2 r hr).2

end StreamHive.Lifecycle
