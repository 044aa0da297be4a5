import StreamHive.Lifecycle.Journal

/-!
# Specifications of the journal operations

What each journal operation can do, stated once.  A journal is `Synced` with a
file system when its open file is the file at its path, the file holds exactly
its log and its size is the file's length.  Later modules use the case lemmas
below and never unfold the operations.

## Main results

* `openJournal_synced`, `openJournal_reopen` — opening gives a synced journal,
  and a synced journal is what opening its path again returns;
* `Journal.append_cases` — an append leaves everything as it was, leaves a part
  of the entry behind, or appends the record.
-/

namespace StreamHive.Lifecycle

open Verified ByteString Effect FileSystem Log

variable {S : Stdlib} {path : String} {n options : JournalOptions} {o : Oracle} {fs fs' : FS}
  {ino : Nat} {j : Journal} {record : Record}

/-! ## The bytes of a journal file -/

variable (S)

/-- The entries of a list of records. -/
def entryBytes (records : List Record) : Bytes :=
  (records.map (journalEntry S)).flatten

/-- The file that the program writes for a log. -/
def journalBytes (log : JournalLog) : Bytes :=
  encodeJournalHeader S log.floor ++ entryBytes S log.records

theorem entryBytes_append (rs ss : List Record) :
    entryBytes S (rs ++ ss) = entryBytes S rs ++ entryBytes S ss := by
  simp [entryBytes]

theorem entryBytes_singleton (r : Record) : entryBytes S [r] = journalEntry S r := by
  simp [entryBytes]

theorem journalBytes_append (log : JournalLog) (r : Record) (h : log.last < r.version) :
    journalBytes S (log.append r h) = journalBytes S log ++ journalEntry S r := by
  unfold journalBytes
  rw [Segment.floor_append, Segment.records_append, entryBytes_append,
    entryBytes_singleton, List.append_assoc]

theorem length_journalBytes (log : JournalLog) : (journalBytes S log).length =
      journalHeaderBytes + (entryBytes S log.records).length := by
  unfold journalBytes
  rw [List.length_append, length_encodeJournalHeader]

/-- The limits under which a journal works. -/
structure Limits.JournalReady (limits : Limits) : Prop where
  normal : limits.normalized = limits
  word : limits.maxRecordBytes ≤ maxUint32

variable {S}

theorem Record.Valid.encodableIn (hS : S.Lawful) {limits : Limits}
    (hlimits : limits.JournalReady) {r : Record} (h : r.Valid S limits) : r.Encodable S := by
  refine h.encodable hS ?_
  rw [hlimits.normal]
  exact hlimits.word

/-- The file written for a log of valid records parses to that log. -/
theorem parses_journalBytes (hS : S.Lawful) {limits : Limits} (hlimits : limits.JournalReady)
    {log : JournalLog} (hvalid : ∀ r ∈ log.records, r.Valid S limits) :
    Parses S limits (journalBytes S log) log := by
  induction log using Segment.induction with
  | reset floor =>
    have h := parseJournal_header S limits floor
    simpa [journalBytes, entryBytes] using h
  | append log r hlast ih =>
    have hr : r.Valid S limits := hvalid r (by simp)
    have hlog := ih fun t ht => hvalid t (by simp [ht])
    rw [journalBytes_append]
    exact parseJournal_append_entry hlog hr (hr.encodableIn hS hlimits)
      hlimits.normal hlast

/-! ## Synced journals -/

/-- The journal's open file is the file at its path and holds its log. -/
structure Journal.Synced (S : Stdlib) (fs : FS) (j : Journal) : Prop where
  opened : j.closed = false
  named : j.path ≠ ""
  held : ∃ ino, j.file = some ⟨ino, false⟩ ∧ fs.dir (.file j.path) = some ino ∧
    Parses S j.limits (fs.content ino) j.log ∧ (fs.content ino).length = j.size
  bytes : j.size ≤ j.maxBytes
  entries : j.log.records.length ≤ j.maxEntries
  limits : j.limits.JournalReady
  int64 : j.maxBytes ≤ maxInt64

namespace Journal.Synced

theorem of_framed (h : j.Synced S fs) {name : String} (hfs : FS.Framed fs name fs')
    (hne : j.path ≠ name) : j.Synced S fs' where
  opened := h.opened
  named := h.named
  held := by
    obtain ⟨ino, hfile, hdir, hparse, hsize⟩ := h.held
    have hcontent := hfs.content ino (fs.allocated _ ino hdir)
    refine ⟨ino, hfile, (hfs.dir j.path hne).trans hdir, ?_, ?_⟩
    · rw [hcontent]
      exact hparse
    · rw [hcontent]
      exact hsize
  bytes := h.bytes
  entries := h.entries
  limits := h.limits
  int64 := h.int64

theorem of_untouched (h : j.Synced S fs) (hfs : FS.Untouched fs fs') :
    j.Synced S fs' := h.of_framed (hfs.framed "") h.named

theorem of_replaced (h : j.Synced S fs) {data : Bytes} (hfs : FS.Replaced fs path data fs')
    (hne : j.path ≠ path) : j.Synced S fs' :=
  h.of_framed hfs.framed hne

theorem valid (h : j.Synced S fs) : ∀ r ∈ j.log.records, r.Valid S j.limits := by
  obtain ⟨_, _, _, hparse, _⟩ := h.held
  exact hparse.valid

theorem header_le (h : j.Synced S fs) : journalHeaderBytes ≤ j.size := by
  obtain ⟨_, _, _, hparse, hsize⟩ := h.held
  rw [← hsize]
  exact hparse.header_le

theorem ensureOpen (h : j.Synced S fs) :
    ∃ ino, j.ensureOpen = .ok ⟨ino, false⟩ ∧ fs.dir (.file j.path) = some ino := by
  obtain ⟨ino, hfile, hdir, _, _⟩ := h.held
  refine ⟨ino, ?_, hdir⟩
  unfold Journal.ensureOpen
  rw [hfile]
  simp [h.opened]

end Journal.Synced

/-! ## Opening -/

/-- The configuration a journal was opened with. -/
structure Journal.OpenedWith (j : Journal) (path : String)
    (options : JournalOptions) : Prop where
  path : j.path = path
  options : ∃ n, options.normalized = .ok n ∧ j.limits = n.limits ∧
    j.maxBytes = n.maxJournalBytes ∧ j.maxEntries = n.maxJournalEntries

theorem JournalOptions.normalized_ready {o : JournalOptions} (h : o.normalized = .ok n) :
    n.limits.JournalReady ∧ journalHeaderBytes ≤ n.maxJournalBytes ∧
      0 < n.maxJournalEntries := by
  unfold JournalOptions.normalized at h
  simp only at h
  split at h
  · cases h
  next hbytes =>
    split at h
    · cases h
    next hword =>
      cases h
      refine ⟨⟨Limits.normalized_normalized _, not_lt.mp hword⟩, not_lt.mp hbytes, ?_⟩
      exact orDefault_pos _ _ (by decide)

theorem JournalOptions.normalized_fields {o : JournalOptions} (h : o.normalized = .ok n) :
    n.limits = o.limits.normalized ∧
      n.maxJournalBytes = orDefault o.maxJournalBytes defaultMaxJournalBytes := by
  unfold JournalOptions.normalized at h
  simp only at h
  split at h
  · cases h
  · split at h
    · cases h
    · cases h
      exact ⟨rfl, rfl⟩

/-- Below the largest `int64`, a bounded read returns the whole file. -/
theorem readLimited_eq_self {content : Bytes} {max : Int}
    (hsize : content.length ≤ max) (hmax : max < maxInt64) :
    readLimited content max = content := by
  unfold readLimited addInt64
  have hbmod : Int.bmod (max + 1) (2 ^ 64) = max + 1 := by
    unfold maxInt64 at hmax
    rw [Int.bmod_def]
    omega
  rw [hbmod, List.take_of_length_le]
  omega

/-- At the largest `int64` the limit overflows and nothing is read. -/
theorem readLimited_maxInt64 (content : Bytes) :
    readLimited content maxInt64 = [] := by
  unfold readLimited addInt64
  have hbmod : (Int.bmod (maxInt64 + 1) (2 ^ 64)).toNat = 0 := by decide
  rw [hbmod, List.take_zero]

theorem parseJournal_nil (S : Stdlib) (limits : Limits) :
    parseJournal S [] limits = .error .journalCorrupt := rfl

theorem openOrCreate_ok (h : openOrCreate o path fs = .ok ino fs') :
    fs'.dir (.file path) = some ino ∧
      (fs' = fs ∨ (fs.dir (.file path) = none ∧ fs' = fs.create (.file path))) := by
  unfold openOrCreate at h
  rw [bind_ok] at h
  obtain ⟨_, fs₁, hcall, h⟩ := h
  obtain ⟨_, rfl⟩ := syscall_ok hcall
  rw [bind_ok] at h
  obtain ⟨_, _, hget, h⟩ := h
  cases hget
  cases hdir : fs.dir (.file path) with
  | some i =>
    rw [hdir] at h
    cases h
    exact ⟨hdir, .inl rfl⟩
  | none =>
    rw [hdir] at h
    cases h
    refine ⟨?_, .inr ⟨rfl, rfl⟩⟩
    simp [FS.create]

theorem readBounded_ok {size : Nat} {max : Int} {data : Bytes}
    (h : readBounded o ino size max fs = .ok data fs') :
    fs = fs' ∧ data = readLimited (fs.content ino) max := by
  unfold readBounded at h
  rw [bind_ok] at h
  obtain ⟨_, _, hraise, h⟩ := h
  obtain ⟨_, rfl⟩ := raiseIf_ok.mp hraise
  rw [bind_ok] at h
  obtain ⟨_, _, hseek, h⟩ := h
  obtain ⟨_, rfl⟩ := syscall_ok hseek
  rw [bind_ok] at h
  obtain ⟨_, _, hread, h⟩ := h
  obtain ⟨_, rfl⟩ := syscall_ok hread
  rw [bind_ok] at h
  obtain ⟨_, _, hget, h⟩ := h
  cases hget
  rw [bind_ok] at h
  obtain ⟨_, _, hraise', h⟩ := h
  obtain ⟨_, rfl⟩ := raiseIf_ok.mp hraise'
  cases h
  exact ⟨rfl, rfl⟩

theorem synced_journalOn {log : JournalLog} (hpath : path ≠ "")
    (hready : options.limits.JournalReady) (hdir : fs.dir (.file path) = some ino)
    (hparse : Parses S options.limits (fs.content ino) log)
    (hbytes : (fs.content ino).length ≤ options.maxJournalBytes)
    (hentries : log.records.length ≤ options.maxJournalEntries) :
    (journalOn path options ino (fs.content ino).length log).Synced S fs where
  opened := rfl
  named := hpath
  held := ⟨ino, rfl, hdir, hparse, rfl⟩
  bytes := hbytes
  entries := hentries
  limits := hready
  int64 := options.int64

theorem initJournal_synced {recovery : Recovery} (hpath : path ≠ "")
    (hready : options.limits.JournalReady)
    (hbytes : journalHeaderBytes ≤ options.maxJournalBytes)
    (hentries : 0 < options.maxJournalEntries) (hdir : fs.dir (.file path) = some ino)
    (hempty : fs.content ino = [])
    (h : initJournal S o path options ino fs = .ok (j, recovery) fs') :
    j.Synced S fs' ∧ fs' = fs.extend ino (encodeJournalHeader S Version.zero) ∧
      j = journalOn path options ino journalHeaderBytes
        (Segment.reset Record.version Version.zero) := by
  unfold initJournal at h
  rw [bind_ok] at h
  obtain ⟨_, fs₁, hwrite, h⟩ := h
  obtain ⟨_, rfl⟩ := writeFull_ok hwrite
  rw [bind_ok] at h
  obtain ⟨_, _, hsync, h⟩ := h
  obtain ⟨_, rfl⟩ := syscall_ok hsync
  rw [bind_ok] at h
  obtain ⟨_, _, hseek, h⟩ := h
  obtain ⟨_, rfl⟩ := syscall_ok hseek
  cases h
  have hcontent : (fs.extend ino (encodeJournalHeader S Version.zero)).content ino =
      encodeJournalHeader S Version.zero := by
    simp [FS.extend, FS.store, hempty]
  refine ⟨?_, rfl, rfl⟩
  have hlen := length_encodeJournalHeader S Version.zero
  have hsynced : (journalOn path options ino
      ((fs.extend ino (encodeJournalHeader S Version.zero)).content ino).length
      (Segment.reset Record.version Version.zero)).Synced S
        (fs.extend ino (encodeJournalHeader S Version.zero)) := by
    refine synced_journalOn hpath hready hdir ?_ ?_ ?_
    · rw [hcontent]
      exact parseJournal_header S _ _
    · rw [hcontent, hlen]
      exact hbytes
    · simp only [Segment.records_reset, List.length_nil]
      omega
  rw [hcontent, hlen] at hsynced
  exact hsynced

/-- Something was read, so the limit did not overflow. -/
theorem int64_of_parsed {content : Bytes} {limits : Limits} {parsed : Parsed}
    (h : parseJournal S (readLimited content n.maxJournalBytes) limits = .ok parsed) :
    n.maxJournalBytes < maxInt64 := by
  refine lt_of_le_of_ne n.int64 ?_
  intro heq
  rw [heq, readLimited_maxInt64, parseJournal_nil] at h
  cases h

theorem recoverJournal_int64 {size : Nat} {r : Journal × Recovery}
    (h : recoverJournal S o path options ino size fs = .ok r fs') :
    options.maxJournalBytes < maxInt64 := by
  unfold recoverJournal at h
  rw [bind_ok] at h
  obtain ⟨data, _, hread, h⟩ := h
  obtain ⟨rfl, rfl⟩ := readBounded_ok hread
  rw [bind_ok] at h
  obtain ⟨parsed, _, hattempt, _⟩ := h
  exact int64_of_parsed (attempt_ok.mp hattempt).1

theorem recoverJournal_synced {recovery : Recovery} (hpath : path ≠ "")
    (hready : options.limits.JournalReady) (hdir : fs.dir (.file path) = some ino)
    (hsize : (fs.content ino).length ≤ options.maxJournalBytes)
    (h : recoverJournal S o path options ino (fs.content ino).length fs =
      .ok (j, recovery) fs') :
    j.Synced S fs' ∧ ∃ size log, j = journalOn path options ino size log ∧
      (fs' = fs ∨ ∃ bytes, fs' = fs.store ino bytes) := by
  have hmax := recoverJournal_int64 h
  unfold recoverJournal at h
  rw [bind_ok] at h
  obtain ⟨data, _, hread, h⟩ := h
  obtain ⟨rfl, hdata⟩ := readBounded_ok hread
  rw [bind_ok] at h
  obtain ⟨parsed, _, hparse, h⟩ := h
  rw [attempt_ok] at hparse
  obtain ⟨hparse, rfl⟩ := hparse
  rw [readLimited_eq_self hsize hmax] at hdata
  subst hdata
  rw [bind_ok] at h
  obtain ⟨_, fs₁, hrepair, h⟩ := h
  rw [bind_ok] at h
  obtain ⟨_, _, hseek, h⟩ := h
  obtain ⟨_, rfl⟩ := syscall_ok hseek
  rw [bind_ok] at h
  obtain ⟨_, _, hraise, h⟩ := h
  obtain ⟨hentries, rfl⟩ := raiseIf_ok.mp hraise
  cases h
  unfold repairTail at hrepair
  cases htrunc : parsed.truncated with
  | false =>
    obtain ⟨hwhole, hvalid⟩ := parses_of_not_truncated hparse htrunc
    rw [htrunc, if_neg (by decide)] at hrepair
    cases hrepair
    rw [hvalid]
    exact ⟨synced_journalOn hpath hready hdir hwhole hsize (not_lt.mp hentries),
      _, _, rfl, .inl rfl⟩
  | true =>
    obtain ⟨hcut, hle⟩ := parseJournal_take_validSize hparse
    rw [htrunc, if_pos rfl, bind_ok] at hrepair
    obtain ⟨_, _, htruncate, hrepair⟩ := hrepair
    obtain ⟨_, rfl⟩ := syscall_ok htruncate
    rw [bind_ok] at hrepair
    obtain ⟨_, _, hmodify, hrepair⟩ := hrepair
    cases hmodify
    obtain ⟨_, rfl⟩ := syscall_ok hrepair
    refine ⟨?_, _, _, rfl, .inr ⟨_, rfl⟩⟩
    have hcontent : (fs.store ino ((fs.content ino).take parsed.validSize)).content
        ino = (fs.content ino).take parsed.validSize := by
      simp [FS.store]
    have hlen : ((fs.content ino).take parsed.validSize).length =
        parsed.validSize := by
      rw [List.length_take]
      omega
    have hsynced : (journalOn path options ino
        ((fs.store ino ((fs.content ino).take parsed.validSize)).content ino).length
        parsed.log).Synced S
          (fs.store ino ((fs.content ino).take parsed.validSize)) := by
      refine synced_journalOn hpath hready hdir ?_ ?_ (not_lt.mp hentries)
      · rw [hcontent]
        exact hcut
      · rw [hcontent, hlen]
        omega
    rw [hcontent, hlen] at hsynced
    exact hsynced

/-- An opening that succeeds has made or found a file that is not too long. -/
theorem openJournal_ok {r : Journal × Recovery}
    (h : openJournal S o path options fs = .ok r fs') :
    path ≠ "" ∧ ∃ n ino fs₁, options.normalized = .ok n ∧ fs₁.dir (.file path) = some ino ∧
      (fs₁ = fs ∨ fs.dir (.file path) = none) ∧
      (fs₁.content ino).length ≤ n.maxJournalBytes ∧
      (if fs₁.content ino = [] then initJournal S o path n ino fs₁
        else recoverJournal S o path n ino (fs₁.content ino).length fs₁) = .ok r fs' := by
  unfold openJournal at h
  rw [bind_ok] at h
  obtain ⟨_, _, hraise, h⟩ := h
  obtain ⟨hpath, rfl⟩ := raiseIf_ok.mp hraise
  rw [bind_ok] at h
  obtain ⟨n, _, hattempt, h⟩ := h
  obtain ⟨hnorm, rfl⟩ := attempt_ok.mp hattempt
  rw [bind_ok] at h
  obtain ⟨ino, fs₁, hopen, h⟩ := h
  obtain ⟨hdir, hfile⟩ := openOrCreate_ok hopen
  rw [bind_ok] at h
  obtain ⟨_, _, hstat, h⟩ := h
  obtain ⟨_, rfl⟩ := syscall_ok hstat
  rw [bind_ok] at h
  obtain ⟨_, _, hget, h⟩ := h
  cases hget
  rw [bind_ok] at h
  obtain ⟨_, _, hlimit, h⟩ := h
  obtain ⟨hsize, rfl⟩ := raiseIf_ok.mp hlimit
  refine ⟨hpath, n, ino, fs₁, hnorm, hdir, hfile.imp_right And.left, not_lt.mp hsize, ?_⟩
  split at h
  · next hzero =>
      rw [if_pos (List.length_eq_zero_iff.mp hzero)]
      exact h
  · next hzero =>
      rw [if_neg fun hnil => hzero (List.length_eq_zero_iff.mpr hnil)]
      exact h

/-- Opening a journal gives a synced journal with the given configuration. -/
theorem openJournal_synced {recovery : Recovery}
    (h : openJournal S o path options fs = .ok (j, recovery) fs') :
    j.Synced S fs' ∧ j.OpenedWith path options := by
  obtain ⟨hpath, n, ino, fs₁, hnorm, hdir, _, hsize, h⟩ := openJournal_ok h
  obtain ⟨hready, hheader, hentries⟩ := JournalOptions.normalized_ready hnorm
  split at h
  · next hempty =>
      obtain ⟨hsynced, _, rfl⟩ :=
        initJournal_synced hpath hready hheader hentries hdir hempty h
      exact ⟨hsynced, rfl, n, hnorm, rfl, rfl, rfl⟩
  · obtain ⟨hsynced, size, log, rfl, _⟩ := recoverJournal_synced hpath hready hdir hsize h
    exact ⟨hsynced, rfl, n, hnorm, rfl, rfl, rfl⟩

/-- The file of a synced journal is opened only if its limit does not overflow. -/
theorem Journal.Synced.int64_of_open {r : Journal × Recovery} (hj : j.Synced S fs)
    (hwith : j.OpenedWith path options)
    (h : openJournal S o path options fs = .ok r fs') : j.maxBytes < maxInt64 := by
  obtain ⟨ino, _, hdir, hparse, _⟩ := hj.held
  obtain ⟨rfl, n, hnorm, _, hbytes, _⟩ := hwith
  obtain ⟨_, n', ino', fs₁, hnorm', hdir', rfl | hnone, _, h⟩ := openJournal_ok h
  swap
  · rw [hdir] at hnone
    cases hnone
  rw [hdir] at hdir'
  cases hdir'
  rw [hnorm] at hnorm'
  cases hnorm'
  have hne : fs₁.content ino ≠ [] := by
    intro hnil
    have hheader := hparse.header_le
    rw [hnil] at hheader
    exact absurd hheader (by decide)
  rw [if_neg hne] at h
  rw [hbytes]
  exact recoverJournal_int64 h

/-- The file system after a torn tail has been cut off. -/
def repaired (fs : FS) (ino : Nat) (parsed : Parsed) : FS :=
  if parsed.truncated then
    fs.store ino ((fs.content ino).take parsed.validSize)
  else
    fs

/-- The recovery report for a parsed file. -/
def Parsed.recovery (parsed : Parsed) : Recovery :=
  ⟨parsed.truncated, parsed.log.floor, parsed.log.last, parsed.log.records.length⟩

theorem readBounded_run (ho : ∀ c, o c = .proceed) {max : Int}
    (hsize : (fs.content ino).length ≤ max) :
    readBounded o ino (fs.content ino).length max fs =
      .ok (readLimited (fs.content ino) max) fs := by
  have hread : ((readLimited (fs.content ino) max).length : Int) ≤ max := by
    have : (readLimited (fs.content ino) max).length ≤ _ := List.length_take_le' _ _
    omega
  unfold readBounded
  rw [run_bind_ok (run_raiseIf (not_lt.mpr hsize)),
    run_bind_ok (syscall_proceed (ho _) _), run_bind_ok (syscall_proceed (ho _) _),
    run_bind_get, run_bind_ok (run_raiseIf (not_lt.mpr hread))]
  rfl

/-- The tail is cut off before the number of entries is checked. -/
theorem recoverJournal_parsed (ho : ∀ c, o c = .proceed) {parsed : Parsed}
    (hparse : parseJournal S (fs.content ino) options.limits = .ok parsed)
    (hsize : (fs.content ino).length ≤ options.maxJournalBytes)
    (hmax : options.maxJournalBytes < maxInt64) :
    recoverJournal S o path options ino (fs.content ino).length fs =
      if parsed.log.records.length ≤ options.maxJournalEntries then
        .ok (journalOn path options ino parsed.validSize parsed.log, parsed.recovery)
          (repaired fs ino parsed)
      else .error .journalLimit (repaired fs ino parsed) := by
  have hread := readBounded_run ho hsize
  rw [readLimited_eq_self hsize hmax] at hread
  have hrepair : repairTail o ino parsed fs = .ok () (repaired fs ino parsed) := by
    unfold repairTail repaired
    split
    · rw [run_bind_ok (syscall_proceed (ho _) _)]
      exact syscall_proceed (ho _) _
    · rfl
  unfold recoverJournal
  rw [run_bind_ok hread, run_bind_ok (run_attempt hparse), run_bind_ok hrepair,
    run_bind_ok (syscall_proceed (ho _) _)]
  split
  · next hentries =>
    rw [run_bind_ok (run_raiseIf (not_lt.mpr hentries))]
    rfl
  · next hentries => exact run_bind_error (run_raiseIf_error (not_le.mp hentries))

theorem openOrCreate_existing (ho : ∀ c, o c = .proceed) (hdir : fs.dir (.file path) = some ino) :
    openOrCreate o path fs = .ok ino fs := by
  unfold openOrCreate
  rw [run_bind_ok (syscall_proceed (ho _) fs), run_bind_get, hdir]
  rfl

theorem openJournal_recovers (ho : ∀ c, o c = .proceed) (hpath : path ≠ "")
    (hnorm : options.normalized = .ok n) (hdir : fs.dir (.file path) = some ino)
    (hsize : (fs.content ino).length ≤ n.maxJournalBytes) (hne : fs.content ino ≠ []) :
    openJournal S o path options fs =
      recoverJournal S o path n ino (fs.content ino).length fs := by
  unfold openJournal
  rw [run_bind_ok (run_raiseIf hpath), run_bind_ok (run_attempt hnorm),
    run_bind_ok (openOrCreate_existing ho hdir), run_bind_ok (syscall_proceed (ho _) _),
    run_bind_get, run_bind_ok (run_raiseIf (not_lt.mpr hsize)),
    if_neg (fun hzero => hne (List.length_eq_zero_iff.mp hzero))]

/-- Opening a file that parses, whole or with a torn tail. -/
theorem openJournal_parsed (ho : ∀ c, o c = .proceed) (hpath : path ≠ "")
    (hnorm : options.normalized = .ok n) {parsed : Parsed}
    (hdir : fs.dir (.file path) = some ino)
    (hparse : parseJournal S (fs.content ino) n.limits = .ok parsed)
    (hsize : (fs.content ino).length ≤ n.maxJournalBytes) (hmax : n.maxJournalBytes < maxInt64)
    (hentries : parsed.log.records.length ≤ n.maxJournalEntries) :
    openJournal S o path options fs =
      .ok (journalOn path n ino parsed.validSize parsed.log, parsed.recovery)
        (repaired fs ino parsed) := by
  have hne : fs.content ino ≠ [] := by
    intro hnil
    rw [hnil, parseJournal_nil] at hparse
    cases hparse
  rw [openJournal_recovers ho hpath hnorm hdir hsize hne,
    recoverJournal_parsed ho hparse hsize hmax, if_pos hentries]

/-- A truncated file is another one. -/
theorem repaired_eq_self {parsed : Parsed}
    (hparse : parseJournal S (fs.content ino) options.limits = .ok parsed) :
    repaired fs ino parsed = fs ↔ parsed.truncated = false := by
  unfold repaired
  cases htrunc : parsed.truncated with
  | false => simp
  | true =>
    obtain ⟨_, _, _, _, ⟨hwhole, _⟩ | ⟨_, hlt, _⟩⟩ := parseJournal_eq_ok.mp hparse
    · rw [htrunc] at hwhole
      cases hwhole
    simp only [if_true, Bool.true_eq_false, iff_false]
    intro hsame
    have hcontent := congrArg (fun fs : FS => (fs.content ino).length) hsame
    simp only [FS.store, Function.update_self, List.length_take] at hcontent
    omega

/-- When nothing fails, opening a file that is not too long returns an error and changes
nothing, unless the file parses and is truncated or its entries are within the limit. -/
theorem openJournal_refuses_iff (hpath : path ≠ "") (hnorm : options.normalized = .ok n)
    (hdir : fs.dir (.file path) = some ino)
    (hsize : (fs.content ino).length ≤ n.maxJournalBytes) (hne : fs.content ino ≠ []) :
    (∃ e, openJournal S Oracle.none path options fs = .error e fs) ↔
      ¬(n.maxJournalBytes < maxInt64 ∧ ∃ p, parseJournal S (fs.content ino) n.limits = .ok p ∧
        (p.truncated = true ∨ p.log.records.length ≤ n.maxJournalEntries)) := by
  have ho : ∀ c, Oracle.none c = .proceed := fun _ => rfl
  rw [openJournal_recovers ho hpath hnorm hdir hsize hne]
  cases hparse : parseJournal S (readLimited (fs.content ino) n.maxJournalBytes) n.limits with
  | error e =>
    constructor
    · rintro _ ⟨hmax, p, hp, _⟩
      rw [readLimited_eq_self hsize hmax, hp] at hparse
      cases hparse
    · intro _
      refine ⟨e, ?_⟩
      unfold recoverJournal
      rw [run_bind_ok (readBounded_run ho hsize)]
      exact run_bind_error (run_attempt_error hparse)
  | ok p =>
    have hmax := int64_of_parsed hparse
    rw [readLimited_eq_self hsize hmax] at hparse
    rw [recoverJournal_parsed ho hparse hsize hmax]
    have hsame := repaired_eq_self hparse
    simp only [hmax, hparse, Except.ok.injEq, exists_eq_left', true_and, not_or,
      Bool.not_eq_true, ← hsame]
    split
    · next hentries => simp [hentries]
    · next hentries => simp [hentries]

/-- The recovery report of a journal that needs no repair. -/
def Recovery.clean (log : JournalLog) : Recovery :=
  ⟨false, log.floor, log.last, log.records.length⟩

/-- Opening the path of a synced journal again returns that journal and changes
nothing. -/
theorem openJournal_reopen (ho : ∀ c, o c = .proceed) (h : j.Synced S fs)
    (hmax : j.maxBytes < maxInt64) (hwith : j.OpenedWith path options) :
    openJournal S o path options fs = .ok (j, Recovery.clean j.log) fs := by
  obtain ⟨ino, hfile, hdir, hparse, hlen⟩ := h.held
  obtain ⟨rfl, n, hnorm, hlimits, hbytes, hentries⟩ := hwith
  have hj : journalOn j.path n ino (fs.content ino).length j.log = j := by
    have hopened := h.opened
    cases j
    simp_all [journalOn]
  have hrun := openJournal_parsed ho h.named hnorm hdir
    (by rw [← hlimits]; exact hparse) (by rw [hlen, ← hbytes]; exact h.bytes)
    (by rw [← hbytes]; exact hmax) (by rw [← hentries]; exact h.entries)
  rw [hrun]
  change EStateM.Result.ok (journalOn j.path n ino (fs.content ino).length j.log,
    Recovery.clean j.log) fs = _
  rw [hj]

/-- The file system with a new journal. -/
def freshJournalFS (S : Stdlib) (fs : FS) (path : String) : FS :=
  (fs.create (.file path)).extend fs.fresh (encodeJournalHeader S Version.zero)

/-- Opening a path that does not exist creates an empty journal. -/
theorem openJournal_fresh (ho : ∀ c, o c = .proceed) (hpath : path ≠ "")
    (hnorm : options.normalized = .ok n) (hdir : fs.dir (.file path) = none) :
    openJournal S o path options fs =
      .ok (journalOn path n fs.fresh journalHeaderBytes
          (Segment.reset Record.version Version.zero),
        ⟨false, Version.zero, Version.zero, 0⟩)
        (freshJournalFS S fs path) := by
  have hopen : openOrCreate o path fs = .ok fs.fresh (fs.create (.file path)) := by
    unfold openOrCreate
    rw [run_bind_ok (syscall_proceed (ho _) fs), run_bind_get, hdir]
    rfl
  have hempty : ((fs.create (.file path)).content fs.fresh).length = 0 := by
    simp [FS.create]
  have hheader := (JournalOptions.normalized_ready hnorm).2.1
  unfold openJournal
  rw [run_bind_ok (run_raiseIf hpath), run_bind_ok (run_attempt hnorm),
    run_bind_ok hopen, run_bind_ok (syscall_proceed (ho _) _)]
  change (do
    raiseIf (((fs.create (.file path)).content fs.fresh).length > n.maxJournalBytes)
      Error.journalLimit
    if ((fs.create (.file path)).content fs.fresh).length = 0 then
      initJournal S o path n fs.fresh
    else recoverJournal S o path n fs.fresh _ :
      EStateM Error FS (Journal × Recovery)) _ = _
  rw [hempty, run_bind_ok (run_raiseIf (by omega)), if_pos rfl]
  unfold initJournal
  rw [run_bind_ok (writeFull_proceed (ho _) _ _ _),
    run_bind_ok (syscall_proceed (ho _) _), run_bind_ok (syscall_proceed (ho _) _)]
  rfl

/-! ## Appending -/

/-- The checks of an append that depend only on the journal and the record. -/
structure Journal.Accepts (S : Stdlib) (j : Journal) (record : Record) : Prop where
  valid : record.Valid S j.limits
  encodes : ∃ entry, encodeEnvelope S (S.record.marshal record) = .ok entry
  opened : ∃ ino, j.ensureOpen = .ok ⟨ino, false⟩
  newer : j.log.last < record.version
  entries : j.log.records.length < j.maxEntries
  bytes : j.size + (journalEntry S record).length ≤ j.maxBytes

theorem journalEntry_of_encode {entry : Bytes}
    (h : encodeEnvelope S (S.record.marshal record) = .ok entry) :
    entry = journalEntry S record := (encodeEnvelope_eq_ok.mp h).2.2

/-- An append leaves everything as it was, or reaches its write.  Then it leaves
a part of the entry, the whole entry without acknowledging it, or appends. -/
theorem Journal.append_cases (S : Stdlib) (o : Oracle) (record : Record)
    (s : OnDisk Journal) :
    (∃ e, Journal.append S o record s = .error e s) ∨
      ∃ (hacc : s.obj.Accepts S record) (ino : Nat),
        s.obj.ensureOpen = .ok ⟨ino, false⟩ ∧
        (∀ c ∈ [.ctxErr 0, .ctxErr 1, .seek], o c = .proceed) ∧
        ((∃ e persisted,
            (o (.write 0) = .fail persisted ∨ o (.write 0) = .crash persisted) ∧
            Journal.append S o record s =
              .error e (s.extend ino ((journalEntry S record).take persisted))) ∨
          (∃ e, o (.write 0) = .proceed ∧ o .sync ≠ .proceed ∧
            Journal.append S o record s =
              .error e (s.extend ino (journalEntry S record))) ∨
          (o (.write 0) = .proceed ∧ Journal.append S o record s = .ok ()
            ⟨s.fs.extend ino (journalEntry S record),
              s.obj.appended record (journalEntry S record).length hacc.newer⟩)) := by
  unfold Journal.append
  by_cases hctx : o (.ctxErr 0) = .proceed
  swap
  · obtain ⟨e, he⟩ := ctxErr_refused hctx s
    exact .inl ⟨e, run_bind_error he⟩
  rw [run_bind_ok (ctxErr_proceed hctx s)]
  rw [run_bind_get]
  cases hvalid : record.validate S s.obj.limits with
  | error e => exact .inl ⟨e, run_bind_error (run_attempt_error rfl)⟩
  | ok _ =>
  rw [run_bind_ok (run_attempt rfl)]
  cases hentry : encodeEnvelope S (S.record.marshal record) with
  | error e => exact .inl ⟨e, run_bind_error (run_attempt_error rfl)⟩
  | ok entry =>
  rw [run_bind_ok (run_attempt rfl)]
  cases hopen : s.obj.ensureOpen with
  | error e => exact .inl ⟨e, run_bind_error (run_attempt_error rfl)⟩
  | ok file =>
  rw [run_bind_ok (run_attempt rfl)]
  by_cases hle : record.version.compare s.obj.log.last ≤ 0
  · rw [dif_pos hle]
    exact .inl ⟨_, rfl⟩
  rw [dif_neg hle]
  by_cases hlimit : s.obj.log.records.length ≥ s.obj.maxEntries ∨
      s.obj.size + entry.length > s.obj.maxBytes
  · exact .inl ⟨_, run_bind_error (run_raiseIf_error hlimit)⟩
  rw [run_bind_ok (run_raiseIf hlimit)]
  by_cases hctx' : o (.ctxErr 1) = .proceed
  swap
  · obtain ⟨e, he⟩ := ctxErr_refused hctx' s
    exact .inl ⟨e, run_bind_error he⟩
  rw [run_bind_ok (ctxErr_proceed hctx' s)]
  by_cases hclosed : file.closed = true
  · refine .inl ⟨.fileClosed, run_bind_error ?_⟩
    unfold seekEnd
    exact run_bind_error (run_raiseIf_error hclosed)
  by_cases hseek : o .seek = .proceed
  swap
  · obtain ⟨e, he⟩ := syscall_refused hseek s
    refine .inl ⟨e, run_bind_error ?_⟩
    unfold seekEnd
    rw [run_bind_ok (run_raiseIf hclosed)]
    exact he
  have hseekRun : seekEnd o file s = .ok () s := by
    unfold seekEnd
    rw [run_bind_ok (run_raiseIf hclosed)]
    exact syscall_proceed hseek s
  rw [run_bind_ok hseekRun]
  have hfile : file = ⟨file.ino, false⟩ := by
    cases file
    simpa using hclosed
  have hentryEq := journalEntry_of_encode hentry
  rw [not_or] at hlimit
  have hacc : s.obj.Accepts S record :=
    { valid := hvalid
      encodes := ⟨entry, hentry⟩
      opened := ⟨file.ino, by rw [hopen, ← hfile]⟩
      newer := lt_of_not_compare_le hle
      entries := not_le.mp hlimit.1
      bytes := by
        rw [← hentryEq]
        exact not_lt.mp hlimit.2 }
  refine .inr ⟨hacc, file.ino, by rw [← hfile], by simp [hctx, hctx', hseek], ?_⟩
  subst hentryEq
  by_cases hwrite : o (.write 0) = .proceed
  swap
  · obtain ⟨e, p, hp, he⟩ :=
      writeFull_refused hwrite file.ino (journalEntry S record) s.fs
    exact .inl ⟨e, p, hp, run_bind_error (run_onFS_error he)⟩
  rw [run_bind_ok (run_onFS (writeFull_proceed hwrite file.ino _ s.fs))]
  by_cases hsync : o .sync = .proceed
  swap
  · obtain ⟨e, he⟩ := syscall_refused hsync (s.extend file.ino (journalEntry S record))
    exact .inr (.inl ⟨e, hwrite, hsync, run_bind_error he⟩)
  refine .inr (.inr ⟨hwrite, ?_⟩)
  rw [run_bind_ok (syscall_proceed hsync _)]
  rfl

/-- When the disk works, a failed append leaves everything as it was. -/
theorem Journal.append_soft (S : Stdlib) (ho : o.Soft) (record : Record) (s : OnDisk Journal) :
    (∃ e, Journal.append S o record s = .error e s) ∨
      ∃ (hacc : s.obj.Accepts S record) (ino : Nat),
        s.obj.ensureOpen = .ok ⟨ino, false⟩ ∧ Journal.append S o record s = .ok ()
          ⟨s.fs.extend ino (journalEntry S record),
            s.obj.appended record (journalEntry S record).length hacc.newer⟩ := by
  have hwritten : o (.write 0) = .proceed := ho.disk _ trivial
  have hsynced : o .sync = .proceed := ho.disk _ trivial
  rcases Journal.append_cases S o record s with herr | ⟨hacc, ino, hopen, _, hend⟩
  · exact .inl herr
  rcases hend with ⟨_, _, hwrite, _⟩ | ⟨_, _, hsync, _⟩ | ⟨_, hrun⟩
  · rw [hwritten] at hwrite
    rcases hwrite with hwrite | hwrite
    · cases hwrite
    · cases hwrite
  · exact absurd hsynced hsync
  · exact .inr ⟨hacc, ino, hopen, hrun⟩

/-- A failed append leaves the journal in memory as it was. -/
theorem Journal.append_error_obj {s s' : OnDisk Journal} {e : Error}
    (h : Journal.append S o record s = .error e s') : s'.obj = s.obj := by
  rcases Journal.append_cases S o record s with ⟨e', hrun⟩ |
    ⟨_, ino, _, _, ⟨e', n, _, hrun⟩ | ⟨e', _, _, hrun⟩ | ⟨_, hrun⟩⟩ <;> rw [hrun] at h <;>
    cases h <;> rfl

/-- A successful append adds the record that it accepted. -/
theorem Journal.append_ok_obj {s s' : OnDisk Journal}
    (h : Journal.append S o record s = .ok () s') : ∃ hacc : s.obj.Accepts S record,
      s'.obj = s.obj.appended record (journalEntry S record).length hacc.newer := by
  rcases Journal.append_cases S o record s with ⟨e', hrun⟩ |
    ⟨hacc, ino, _, _, ⟨e', n, _, hrun⟩ | ⟨e', _, _, hrun⟩ | ⟨_, hrun⟩⟩ <;>
    rw [hrun] at h <;> cases h
  exact ⟨hacc, rfl⟩

/-- The file of a synced journal after its entry has been written. -/
theorem Journal.Synced.appended (hS : S.Lawful) (h : j.Synced S fs) (hacc : j.Accepts S record)
    (hopen : j.ensureOpen = .ok ⟨ino, false⟩) :
    (j.appended record (journalEntry S record).length hacc.newer).Synced S
      (fs.extend ino (journalEntry S record)) := by
  obtain ⟨ino', hfile, hdir, hparse, hsize⟩ := h.held
  have hino : ino' = ino := by
    unfold Journal.ensureOpen at hopen
    rw [hfile] at hopen
    simp only [h.opened] at hopen
    cases hopen
    rfl
  subst hino
  have hentries := hacc.entries
  have hbytes := hacc.bytes
  refine
    { opened := h.opened
      named := h.named
      held := ⟨ino', hfile, hdir, ?_, ?_⟩
      bytes := ?_
      entries := ?_
      limits := h.limits
      int64 := h.int64 }
  · have hnext := parseJournal_append_entry hparse hacc.valid
      (hacc.valid.encodableIn hS h.limits) h.limits.normal hacc.newer
    simpa [FS.extend, FS.store, Journal.appended] using hnext
  · simp [FS.extend, FS.store, Journal.appended, hsize]
  · simp only [Journal.appended]
    omega
  · simp only [Journal.appended, Segment.records_append, List.length_append,
      List.length_singleton]
    omega

/-- An append without faults keeps the journal synced. -/
theorem Journal.Synced.append_none (hS : S.Lawful) {s : OnDisk Journal}
    (h : s.obj.Synced S s.fs) (record : Record) :
    (finalState (Journal.append S Oracle.none record s)).obj.Synced S
      (finalState (Journal.append S Oracle.none record s)).fs := by
  rcases Journal.append_cases S Oracle.none record s with ⟨e, hrun⟩ |
    ⟨hacc, ino, hopen, _, ⟨e, n, hw, _⟩ | ⟨e, _, hs, _⟩ | ⟨_, hrun⟩⟩
  · rw [hrun]
    exact h
  · rcases hw with hw | hw <;> cases hw
  · exact absurd rfl hs
  · rw [hrun]
    exact h.appended hS hacc hopen

/-! ## Listing -/

theorem copyRecords_ok {records : List Record} :
    ∀ {i : Nat} {out : List Record}, copyRecords o i records = .ok out → out = records := by
  induction records with
  | nil =>
    intro i out h
    exact (Except.ok.inj h).symm
  | cons record rest ih =>
    intro i out h
    unfold copyRecords at h
    rw [except_bind_ok] at h
    obtain ⟨_, _, h⟩ := h
    rw [except_bind_ok] at h
    obtain ⟨copied, hcopied, h⟩ := h
    rw [← Except.ok.inj h, ih hcopied]

theorem Journal.listRecords_ok {out : List Record} (h : j.listRecords o = .ok out) :
    out = j.records := by
  unfold Journal.listRecords at h
  rw [except_bind_ok] at h
  obtain ⟨_, _, h⟩ := h
  rw [except_bind_ok] at h
  obtain ⟨_, _, h⟩ := h
  exact copyRecords_ok h

theorem copyRecords_proceed (ho : ∀ c, o c = .proceed) (records : List Record) :
    ∀ i, copyRecords o i records = .ok records := by
  induction records with
  | nil => exact fun _ => rfl
  | cons record rest ih =>
    intro i
    unfold copyRecords
    rw [ctxCheck_ok.mpr (ho _), ih (i + 1)]
    rfl

theorem Journal.listRecords_proceed (ho : ∀ c, o c = .proceed) {file : File}
    (hopen : j.ensureOpen = .ok file) : j.listRecords o = .ok j.records := by
  unfold Journal.listRecords
  rw [ctxCheck_ok.mpr (ho _), hopen]
  exact copyRecords_proceed ho j.records 1

end StreamHive.Lifecycle
