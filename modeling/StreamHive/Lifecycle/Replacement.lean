import StreamHive.Lifecycle.JournalSpec

/-!
# Replacing the checkpoint and the journal

Compaction and snapshot installation write a checkpoint file, replace the journal
file and then adopt the new one.  The case lemmas of this module say, for every
verdict on every call, which of the two files are replaced and what the journal
in memory looks like afterwards.

## Main results

* `rewriteLocked_cases` — the journal file is as it was, or holds the new log;
* `adoptLog_cases` — the same with the journal in memory: an error after the
  rename leaves the journal on the file that is no longer at its path;
* `replaceFiles_cases` — both files, in the order in which they are replaced.
-/

namespace StreamHive.Lifecycle

open Verified ByteString Effect FileSystem Log

/-! ## The new journal file -/

/-- The calls up to the rename when a journal of `k` records is written. -/
def RewriteCall (k : Nat) : Call → Prop
  | .ctxErr i => i ≤ k
  | .write i => i ≤ k
  | .createTemp | .sync | .close | .rename => True
  | _ => False

variable (S : Stdlib)

/-- Every record can be encoded and the file never grows past the bound. -/
def Fits (maxBytes : Int) : Nat → List Record → Prop
  | _, [] => True
  | size, r :: rest =>
    (∃ entry, encodeEnvelope S (S.record.marshal r) = .ok entry) ∧
      size + (journalEntry S r).length ≤ maxBytes ∧
      Fits maxBytes (size + (journalEntry S r).length) rest

/-- The final size of records that fit is within the bound. -/
theorem Fits.bytes {S : Stdlib} {maxBytes : Int} {records : List Record} {size : Nat}
    (h : Fits S maxBytes size records) (hsize : size ≤ maxBytes) :
    (size + (entryBytes S records).length : Int) ≤ maxBytes := by
  induction records generalizing size with
  | nil => simpa [entryBytes] using hsize
  | cons r rest ih =>
    obtain ⟨_, hle, hrest⟩ := h
    have hall := ih hrest (by exact_mod_cast hle)
    have hlen : (entryBytes S (r :: rest)).length =
        (journalEntry S r).length + (entryBytes S rest).length := by
      simp [entryBytes]
    rw [hlen]
    omega

/-- The copying loop stops with a part of the file staged, or stages all of it. -/
theorem rewriteEntries_cases (o : Oracle) (maxBytes : Int) {fs : FS} {n : Nat}
    (records : List Record) :
    ∀ {i size : Nat} {data : Bytes} {fs₁ : FS}, Staged fs n data fs₁ →
      (∃ e fs' data', rewriteEntries S o maxBytes n i size records fs₁ = .error e fs' ∧
        Staged fs n data' fs' ∧
        ((∃ c, RewriteCall (i + records.length) c ∧ o c ≠ .proceed) ∨
          ¬ Fits S maxBytes size records)) ∨
      (∃ fs', rewriteEntries S o maxBytes n i size records fs₁ =
          .ok (size + (entryBytes S records).length) fs' ∧
        Staged fs n (data ++ entryBytes S records) fs' ∧
        (∀ k, i ≤ k → k < i + records.length →
          o (.ctxErr k) = .proceed ∧ o (.write (k + 1)) = .proceed) ∧
        Fits S maxBytes size records) := by
  induction records with
  | nil =>
    intro i size data fs₁ h
    refine .inr ⟨fs₁, ?_, ?_, ?_, trivial⟩
    · simp [rewriteEntries, entryBytes]
      rfl
    · simpa [entryBytes] using h
    · intro k hle hlt
      simp only [List.length_nil] at hlt
      omega
  | cons r rest ih =>
    intro i size data fs₁ h
    have hlen : i + (r :: rest).length = i + 1 + rest.length := by
      simp only [List.length_cons]
      omega
    rw [hlen]
    unfold rewriteEntries
    rcases ctxErr_cases o i fs₁ with ⟨hctx, e, he⟩ | ⟨hctx, hx⟩
    · exact .inl ⟨e, fs₁, data, run_bind_error he, h,
        .inl ⟨.ctxErr i, by simp only [RewriteCall]; omega, hctx⟩⟩
    rw [run_bind_ok hx]
    cases hentry : encodeEnvelope S (S.record.marshal r) with
    | error e =>
      refine .inl ⟨e, fs₁, data, run_bind_error (run_attempt_error rfl), h, .inr ?_⟩
      rintro ⟨⟨entry, hok⟩, _⟩
      rw [hentry] at hok
      cases hok
    | ok entry =>
    have hbytes := journalEntry_of_encode hentry
    subst hbytes
    rw [run_bind_ok (run_attempt rfl)]
    by_cases hlimit : (size + (journalEntry S r).length : Int) > maxBytes
    · refine .inl ⟨_, fs₁, data, run_bind_error (run_raiseIf_error hlimit), h,
        .inr ?_⟩
      rintro ⟨_, hle, _⟩
      omega
    rw [run_bind_ok (run_raiseIf hlimit)]
    by_cases hwrite : o (.write (i + 1)) = .proceed
    swap
    · obtain ⟨e, p, _, he⟩ := writeFull_refused hwrite n (journalEntry S r) fs₁
      exact .inl ⟨e, _, _, run_bind_error he, h.extend _,
        .inl ⟨.write (i + 1), by simp only [RewriteCall]; omega, hwrite⟩⟩
    rw [run_bind_ok (writeFull_proceed hwrite n _ fs₁)]
    have hsum : entryBytes S (r :: rest) = journalEntry S r ++ entryBytes S rest := by
      simp [entryBytes]
    rcases @ih (i + 1) (size + (journalEntry S r).length) _ _
        (h.extend (journalEntry S r)) with
      ⟨e, fs', data', hrun, hstaged, hwhy⟩ | ⟨fs', hrun, hstaged, hcalls, hfits⟩
    · refine .inl ⟨e, fs', data', hrun, hstaged, hwhy.imp id ?_⟩
      intro hnot hfits
      exact hnot hfits.2.2
    · refine .inr ⟨fs', ?_, ?_, ?_, ⟨_, hentry⟩, by omega, hfits⟩
      · rw [hrun, hsum, List.length_append, Nat.add_assoc]
      · rw [hsum, ← List.append_assoc]
        exact hstaged
      · intro k hle hlt
        rcases Nat.eq_or_lt_of_le hle with rfl | hgt
        · exact ⟨hctx, hwrite⟩
        · exact hcalls k hgt hlt

/-- Filling the temporary file and renaming it leaves the named files as they
were, or installs the file of the log. -/
theorem installJournal_cases (o : Oracle) (path : String) (maxBytes : Int) (log : JournalLog)
    {fs fs₁ : FS} {n : Nat} (h : Staged fs n [] fs₁) :
    (∃ e fs', installJournal S o n path maxBytes log.floor log.records fs₁ =
        .error e fs' ∧ FS.Untouched fs fs' ∧
        ((∃ c, RewriteCall log.records.length c ∧ o c ≠ .proceed) ∨
          ¬ Fits S maxBytes journalHeaderBytes log.records)) ∨
      (∃ fs', installJournal S o n path maxBytes log.floor log.records fs₁ =
          .ok (journalBytes S log).length fs' ∧
        FS.Replaced fs path (journalBytes S log) fs' ∧
        (∀ c, RewriteCall log.records.length c → c ≠ .createTemp → o c = .proceed) ∧
        Fits S maxBytes journalHeaderBytes log.records) := by
  by_cases hwrite : o (.write 0) = .proceed
  swap
  · obtain ⟨e, p, _, he⟩ := writeFull_refused hwrite n (encodeJournalHeader S log.floor) fs₁
    exact .inl ⟨e, _, run_onError_error (run_bind_error he), (h.extend _).removeTemp e,
      .inl ⟨.write 0, Nat.zero_le _, hwrite⟩⟩
  have hw := writeFull_proceed hwrite n (encodeJournalHeader S log.floor) fs₁
  have hheader := h.extend (encodeJournalHeader S log.floor)
  rw [List.nil_append] at hheader
  rcases @rewriteEntries_cases S o maxBytes fs n log.records 0 journalHeaderBytes _ _
      hheader with
    ⟨e, fs', data', hrun, hstaged, hwhy⟩ | ⟨fs', hrun, hstaged, hcalls, hfits⟩
  · refine .inl ⟨e, _, run_onError_error ?_, hstaged.removeTemp e, ?_⟩
    · rw [run_bind_ok hw, run_bind_error hrun]
    · rwa [Nat.zero_add] at hwhy
  change Staged fs n (journalBytes S log) fs' at hstaged
  rw [← length_journalBytes] at hrun
  rcases syscall_cases o .sync fs' with ⟨hsync, e, he⟩ | ⟨hsync, hs⟩
  · refine .inl ⟨e, _, run_onError_error ?_, hstaged.removeTemp e,
      .inl ⟨.sync, trivial, hsync⟩⟩
    rw [run_bind_ok hw, run_bind_ok hrun, run_bind_error he]
  rcases syscall_cases o .close fs' with ⟨hclose, e, he⟩ | ⟨hclose, hc⟩
  · refine .inl ⟨e, _, run_onError_error ?_, hstaged.removeTemp e,
      .inl ⟨.close, trivial, hclose⟩⟩
    rw [run_bind_ok hw, run_bind_ok hrun, run_bind_ok hs, run_bind_error he]
  rcases ctxErr_cases o log.records.length fs' with ⟨hctx, e, he⟩ | ⟨hctx, hx⟩
  · refine .inl ⟨e, _, run_onError_error ?_, hstaged.removeTemp e,
      .inl ⟨.ctxErr log.records.length, le_refl _, hctx⟩⟩
    rw [run_bind_ok hw, run_bind_ok hrun, run_bind_ok hs, run_bind_ok hc,
      run_bind_error he]
  rcases syscall_cases o .rename fs' with ⟨hrename, e, he⟩ | ⟨hrename, hr⟩
  · refine .inl ⟨e, _, run_onError_error ?_, hstaged.removeTemp e,
      .inl ⟨.rename, trivial, hrename⟩⟩
    rw [run_bind_ok hw, run_bind_ok hrun, run_bind_ok hs, run_bind_ok hc,
      run_bind_ok hx, run_bind_error he]
  refine .inr ⟨_, run_onError ?_, hstaged.rename path, ?_, hfits⟩
  · rw [run_bind_ok hw, run_bind_ok hrun, run_bind_ok hs, run_bind_ok hc,
      run_bind_ok hx, run_bind_ok hr]
    rfl
  · intro c hc hne
    cases c with
    | ctxErr k =>
      rcases Nat.eq_or_lt_of_le (show k ≤ log.records.length from hc) with rfl | hlt
      · exact hctx
      · exact (hcalls k (Nat.zero_le _) (by omega)).1
    | write k =>
      cases k with
      | zero => exact hwrite
      | succ k =>
        have hle : k + 1 ≤ log.records.length := hc
        exact (hcalls k (Nat.zero_le _) (by omega)).2
    | createTemp => exact absurd rfl hne
    | sync => exact hsync
    | close => exact hclose
    | rename => exact hrename
    | _ => exact absurd hc id

/-- The calls that follow the rename of the new journal file. -/
def reopenCalls : List Call := [.syncDirectory, .reopen, .reopenSeek]

/-- The journal file is as it was, or holds the new log.  In the second case an
error comes from a call after the rename. -/
theorem rewriteLocked_cases (o : Oracle) (path : String) (maxBytes : Int) (log : JournalLog)
    (fs : FS) :
    (∃ e fs', rewriteLocked S o path maxBytes log.floor log.records fs = .error e fs' ∧
        FS.Untouched fs fs' ∧
        ((∃ c, RewriteCall log.records.length c ∧ o c ≠ .proceed) ∨
          ¬ Fits S maxBytes journalHeaderBytes log.records)) ∨
      ((∀ c, RewriteCall log.records.length c → o c = .proceed) ∧
        Fits S maxBytes journalHeaderBytes log.records ∧
        ∃ fs', FS.Replaced fs path (journalBytes S log) fs' ∧
          ((∃ e, rewriteLocked S o path maxBytes log.floor log.records fs =
              .error e fs' ∧ ∃ c ∈ reopenCalls, o c ≠ .proceed) ∨
            (∃ ino, rewriteLocked S o path maxBytes log.floor log.records fs =
              .ok (ino, (journalBytes S log).length) fs' ∧
              fs'.dir (.file path) = some ino ∧ ∀ c ∈ reopenCalls, o c = .proceed))) := by
  unfold rewriteLocked
  by_cases htemp : o .createTemp = .proceed
  swap
  · obtain ⟨e, he⟩ := createTemp_refused htemp fs
    exact .inl ⟨e, fs, run_bind_error he, FS.Untouched.refl fs,
      .inl ⟨.createTemp, trivial, htemp⟩⟩
  rw [run_bind_ok (createTemp_proceed htemp fs)]
  rcases installJournal_cases S o path maxBytes log (Staged.create fs) with
    ⟨e, fs', hrun, huntouched, hwhy⟩ | ⟨fs', hrun, hreplaced, hcalls, hfits⟩
  · exact .inl ⟨e, fs', run_bind_error hrun, huntouched, hwhy⟩
  have hall : ∀ c, RewriteCall log.records.length c → o c = .proceed := by
    intro c hc
    by_cases hne : c = .createTemp
    · rw [hne]
      exact htemp
    · exact hcalls c hc hne
  refine .inr ⟨hall, hfits, fs', hreplaced, ?_⟩
  rw [run_bind_ok hrun]
  rcases syscall_cases o .syncDirectory fs' with ⟨hsync, e, he⟩ | ⟨hsync, hs⟩
  · exact .inl ⟨e, run_bind_error he, .syncDirectory, by decide, hsync⟩
  rw [run_bind_ok hs]
  rcases syscall_cases o .reopen fs' with ⟨hreopen, e, he⟩ | ⟨hreopen, hr⟩
  · exact .inl ⟨e, run_bind_error he, .reopen, by decide, hreopen⟩
  rw [run_bind_ok hr, run_bind_get]
  obtain ⟨ino, hdir, _⟩ := hreplaced.here
  rw [hdir]
  rcases syscall_cases o .reopenSeek fs' with ⟨hseek, e, he⟩ | ⟨hseek, hk⟩
  · exact .inl ⟨e, run_bind_error he, .reopenSeek, by decide, hseek⟩
  · refine .inr ⟨ino, run_bind_ok hk, rfl, ?_⟩
    simp [reopenCalls, hsync, hreopen, hseek]

/-! ## Adopting the new file -/

/-- The journal after it has adopted a new file. -/
def Journal.adopted (j : Journal) (ino size : Nat) (log : JournalLog) : Journal :=
  { j with file := some ⟨ino, false⟩, log := log, size := size }

/-- The journal whose file is marked closed. -/
def Journal.released (j : Journal) (file : File) : Journal :=
  { j with file := some { file with closed := true } }

/-- The calls after the rename, including the close of the old file. -/
def adoptCalls : List Call := [.syncDirectory, .reopen, .reopenSeek, .closeOld]

/-- The journal is on its old file and that file is at its path, or the new file
is at its path.  In the second case the journal adopts it, or a call failed and
the journal is still on its old file. -/
theorem adoptLog_cases (o : Oracle) (file : File) (log : JournalLog) (s : OnDisk Journal) :
    (∃ e fs', Journal.adoptLog S o file log s = .error e ⟨fs', s.obj⟩ ∧
        FS.Untouched s.fs fs' ∧
        ((∃ c, RewriteCall log.records.length c ∧ o c ≠ .proceed) ∨
          ¬ Fits S s.obj.maxBytes journalHeaderBytes log.records)) ∨
      ((∀ c, RewriteCall log.records.length c → o c = .proceed) ∧
        Fits S s.obj.maxBytes journalHeaderBytes log.records ∧
        ∃ fs', FS.Replaced s.fs s.obj.path (journalBytes S log) fs' ∧
          ((∃ e j', Journal.adoptLog S o file log s = .error e ⟨fs', j'⟩ ∧
              (j' = s.obj ∨ j' = s.obj.released file) ∧
              (file.closed = true ∨ ∃ c ∈ adoptCalls, o c ≠ .proceed)) ∨
            (∃ ino, Journal.adoptLog S o file log s =
              .ok () ⟨fs', s.obj.adopted ino (journalBytes S log).length log⟩ ∧
              fs'.dir (.file s.obj.path) = some ino ∧
              ∀ c ∈ adoptCalls, o c = .proceed))) := by
  unfold Journal.adoptLog
  rw [run_bind_get]
  rcases rewriteLocked_cases S o s.obj.path s.obj.maxBytes log s.fs with
    ⟨e, fs', hrun, huntouched, hwhy⟩ |
    ⟨hall, hfits, fs', hreplaced, ⟨e, hrun, c, hc, hrefused⟩ | ⟨ino, hrun, hdir, hok⟩⟩
  · exact .inl ⟨e, fs', run_bind_error (run_onFS_error hrun), huntouched, hwhy⟩
  · refine .inr ⟨hall, hfits, fs', hreplaced, .inl ⟨e, s.obj,
      run_bind_error (run_onFS_error hrun), .inl rfl, .inr ⟨c, ?_, hrefused⟩⟩⟩
    exact List.mem_append_left [.closeOld] hc
  refine .inr ⟨hall, hfits, fs', hreplaced, ?_⟩
  rw [run_bind_ok (run_onFS hrun)]
  by_cases hfile : file.closed = true
  · refine .inl ⟨.fileClosed, s.obj, run_bind_error ?_, .inl rfl, .inl hfile⟩
    unfold closeOldFile
    exact run_bind_error (run_raiseIf_error hfile)
  have hclose : closeOldFile o file ({ s with fs := fs' } : OnDisk Journal) =
      syscall o .closeOld ⟨fs', s.obj.released file⟩ := by
    unfold closeOldFile
    rw [run_bind_ok (run_raiseIf hfile)]
    rfl
  rcases syscall_cases o .closeOld (⟨fs', s.obj.released file⟩ : OnDisk Journal) with
    ⟨hold, e, he⟩ | ⟨hold, hs⟩
  · refine .inl ⟨e, s.obj.released file, ?_, .inr rfl, .inr ⟨.closeOld, by decide, hold⟩⟩
    exact run_bind_error (hclose.trans he)
  · refine .inr ⟨ino, ?_, hdir, ?_⟩
    · exact run_bind_ok (hclose.trans hs)
    · simp only [adoptCalls, List.mem_cons, List.not_mem_nil, or_false]
      rintro c (rfl | rfl | rfl | rfl)
      · exact hok _ (by decide)
      · exact hok _ (by decide)
      · exact hok _ (by decide)
      · exact hold

/-! ## Both files -/

/-- Write the checkpoint, then replace the journal file and adopt it. -/
def replaceFiles (F : Faults) (checkpointPath : String) (checkpointBytes : Bytes) (file : File)
    (log : JournalLog) : EStateM Error (OnDisk Journal) Unit := do
  onFS (atomicWrite (F .checkpoint) checkpointPath checkpointBytes)
  Journal.adoptLog S (F .rewrite) file log

/-- The files are as they were, the checkpoint alone is new, or both are.  Only
in the last case does the journal adopt the new log, and an error then comes
from a call after the second rename. -/
theorem replaceFiles_cases (F : Faults) (checkpointPath : String) (checkpointBytes : Bytes)
    (file : File) (log : JournalLog) (s : OnDisk Journal) :
    (∃ e fs', replaceFiles S F checkpointPath checkpointBytes file log s =
        .error e ⟨fs', s.obj⟩ ∧ FS.Untouched s.fs fs' ∧
        ∃ c ∈ atomicWriteCalls, F .checkpoint c ≠ .proceed) ∨
      ((∀ c ∈ atomicWriteCalls, F .checkpoint c = .proceed) ∧
        ∃ fs₁, FS.Replaced s.fs checkpointPath checkpointBytes fs₁ ∧
          ((∃ e fs', replaceFiles S F checkpointPath checkpointBytes file log s =
              .error e ⟨fs', s.obj⟩ ∧ FS.Untouched fs₁ fs' ∧
              (F .checkpoint .syncDirectory ≠ .proceed ∨
                (∃ c, RewriteCall log.records.length c ∧ F .rewrite c ≠ .proceed) ∨
                ¬ Fits S s.obj.maxBytes journalHeaderBytes log.records)) ∨
            (F .checkpoint .syncDirectory = .proceed ∧
              (∀ c, RewriteCall log.records.length c → F .rewrite c = .proceed) ∧
              Fits S s.obj.maxBytes journalHeaderBytes log.records ∧
              ∃ fs', FS.Replaced fs₁ s.obj.path (journalBytes S log) fs' ∧
                ((∃ e j', replaceFiles S F checkpointPath checkpointBytes file log s =
                    .error e ⟨fs', j'⟩ ∧ (j' = s.obj ∨ j' = s.obj.released file) ∧
                    (file.closed = true ∨ ∃ c ∈ adoptCalls, F .rewrite c ≠ .proceed)) ∨
                  (∃ ino, replaceFiles S F checkpointPath checkpointBytes file log s =
                    .ok () ⟨fs', s.obj.adopted ino (journalBytes S log).length log⟩ ∧
                    fs'.dir (.file s.obj.path) = some ino ∧
                    ∀ c ∈ adoptCalls, F .rewrite c = .proceed))))) := by
  unfold replaceFiles
  rcases atomicWrite_cases (F .checkpoint) checkpointPath checkpointBytes s.fs with
    ⟨e, fs', hrun, huntouched, hwhy⟩ | ⟨e, fs₁, hrun, hreplaced, hcalls, hsync⟩ |
    ⟨fs₁, hrun, hreplaced, hcalls, hsync⟩
  · exact .inl ⟨e, fs', run_bind_error (run_onFS_error hrun), huntouched, hwhy⟩
  · exact .inr ⟨hcalls, fs₁, hreplaced, .inl ⟨e, fs₁,
      run_bind_error (run_onFS_error hrun), FS.Untouched.refl fs₁, .inl hsync⟩⟩
  refine .inr ⟨hcalls, fs₁, hreplaced, ?_⟩
  rw [run_bind_ok (run_onFS hrun)]
  rcases adoptLog_cases S (F .rewrite) file log ⟨fs₁, s.obj⟩ with
    ⟨e, fs', hrun', huntouched, hwhy⟩ | ⟨hall, hfits, fs', hreplaced', hend⟩
  · exact .inl ⟨e, fs', hrun', huntouched, .inr hwhy⟩
  · exact .inr ⟨hsync, hall, hfits, fs', hreplaced', hend⟩

/-- A failed replacement keeps the log and the configuration in memory. -/
theorem replaceFiles_error_obj {S : Stdlib} {F : Faults} {checkpointPath : String}
    {checkpointBytes : Bytes} {file : File} {log : JournalLog} {s s' : OnDisk Journal}
    {e : Error}
    (h : replaceFiles S F checkpointPath checkpointBytes file log s = .error e s') :
    s'.obj = s.obj ∨ s'.obj = s.obj.released file := by
  rcases replaceFiles_cases S F checkpointPath checkpointBytes file log s with
    ⟨e', fs', he, _⟩ | ⟨_, fs₁, _, ⟨e', fs', he, _⟩ |
      ⟨_, _, _, fs', _, ⟨e', j', he, hj', _⟩ | ⟨ino, hend, _⟩⟩⟩
  · rw [he] at h
    cases h
    exact .inl rfl
  · rw [he] at h
    cases h
    exact .inl rfl
  · rw [he] at h
    cases h
    exact hj'
  · rw [hend] at h
    cases h

/-- A successful replacement installs both files and adopts the log. -/
theorem replaceFiles_ok {S : Stdlib} {F : Faults} {checkpointPath : String}
    {checkpointBytes : Bytes} {file : File} {log : JournalLog} {s s' : OnDisk Journal}
    (h : replaceFiles S F checkpointPath checkpointBytes file log s = .ok () s') :
    ∃ fs₁ ino, FS.Replaced s.fs checkpointPath checkpointBytes fs₁ ∧
      FS.Replaced fs₁ s.obj.path (journalBytes S log) s'.fs ∧
      s'.fs.dir (.file s.obj.path) = some ino ∧
      s'.obj = s.obj.adopted ino (journalBytes S log).length log ∧
      Fits S s.obj.maxBytes journalHeaderBytes log.records := by
  rcases replaceFiles_cases S F checkpointPath checkpointBytes file log s with
    ⟨e', fs', he, _⟩ | ⟨_, fs₁, hckpt, ⟨e', fs', he, _⟩ |
      ⟨_, _, hfits, fs', hjournal, ⟨e', j', he, _⟩ | ⟨ino, hend, hdir, _⟩⟩⟩
  · rw [he] at h
    cases h
  · rw [he] at h
    cases h
  · rw [he] at h
    cases h
  · rw [hend] at h
    cases h
    exact ⟨fs₁, ino, hckpt, hjournal, hdir, rfl, hfits⟩

/-- The context is cancelled while a journal of `k` records is written. -/
def RewriteCanceled (F : Faults) (k : Nat) : Prop :=
  ∃ i ≤ k, F .rewrite (.ctxErr i) ≠ .proceed

/-- When the disk works, a replacement of an open journal's files fails with
nothing changed, or with the checkpoint alone replaced, or replaces both. -/
theorem replaceFiles_soft {F : Faults} (hF : F.Soft) (checkpointPath : String)
    (checkpointBytes : Bytes) {file : File} (hfile : file.closed = false) (log : JournalLog)
    (s : OnDisk Journal) :
    (∃ e fs', replaceFiles S F checkpointPath checkpointBytes file log s =
        .error e ⟨fs', s.obj⟩ ∧ FS.Untouched s.fs fs') ∨
      ∃ fs₁, FS.Replaced s.fs checkpointPath checkpointBytes fs₁ ∧
        ((∃ e fs', replaceFiles S F checkpointPath checkpointBytes file log s =
            .error e ⟨fs', s.obj⟩ ∧ FS.Untouched fs₁ fs' ∧
            (RewriteCanceled F log.records.length ∨
              ¬ Fits S s.obj.maxBytes journalHeaderBytes log.records)) ∨
          (∃ fs' ino, replaceFiles S F checkpointPath checkpointBytes file log s =
            .ok () ⟨fs', s.obj.adopted ino (journalBytes S log).length log⟩ ∧
            FS.Replaced fs₁ s.obj.path (journalBytes S log) fs' ∧
            fs'.dir (.file s.obj.path) = some ino ∧
            Fits S s.obj.maxBytes journalHeaderBytes log.records)) := by
  have hdisk : ∀ site (c : Call), c.OnDisk → F site c = .proceed :=
    fun site c hc => (hF site).disk c hc
  rcases replaceFiles_cases S F checkpointPath checkpointBytes file log s with
    ⟨e, fs', hrun, hfs, _⟩ | ⟨_, fs₁, hckpt, ⟨e, fs', hrun, hfs, hwhy⟩ |
      ⟨_, _, hfits, fs', hjournal, ⟨_, _, _, _, hwhy⟩ | ⟨ino, hrun, hdir, _⟩⟩⟩
  · exact .inl ⟨e, fs', hrun, hfs⟩
  · refine .inr ⟨fs₁, hckpt, .inl ⟨e, fs', hrun, hfs, ?_⟩⟩
    rcases hwhy with hsync | ⟨c, hc, hrefused⟩ | hfits
    · exact (hsync (hdisk _ _ trivial)).elim
    · refine .inl ?_
      cases c with
      | ctxErr i => exact ⟨i, hc, hrefused⟩
      | blobGet | blobPut | blobHas | listKeys | writeFrame => exact absurd hc id
      | _ => exact (hrefused (hdisk _ _ trivial)).elim
    · exact .inr hfits
  · rcases hwhy with hclosed | ⟨c, hc, hrefused⟩
    · rw [hfile] at hclosed
      cases hclosed
    · simp only [adoptCalls, List.mem_cons, List.not_mem_nil, or_false] at hc
      rcases hc with rfl | rfl | rfl | rfl
      all_goals exact (hrefused (hdisk _ _ trivial)).elim
  · exact .inr ⟨fs₁, hckpt, .inr ⟨fs', ino, hrun, hjournal, hdir, hfits⟩⟩

end StreamHive.Lifecycle
