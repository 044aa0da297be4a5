import StreamHive.Lifecycle.GoStdlib

/-!
# Appends after failed appends

A failed append leaves bytes behind that the journal's fields do not describe.
The journal stays open and later appends write after those bytes.  This module
follows a run of appends, any of which may fail at any call, and asks what
opening the resulting file again returns.

`AppendSafe` is the condition under which one append does no harm: if it
persists any bytes, the file it extends is whole, ends below the record's
version and has room.  `acked_appends_survive` proves that a run of safe appends
loses no acknowledged record, and `acked_append_lost_after_torn_write` runs the
case that the condition excludes.
-/

namespace StreamHive.Lifecycle

open Verified ByteString Effect FileSystem Log

variable {S : Stdlib} {s : OnDisk Journal}

/-! ## Runs of appends -/

/-- Run appends one after the other, whatever they return, and collect the
records whose append returned nil. -/
def runAppends (S : Stdlib) :
    List (Record × Oracle) → OnDisk Journal → OnDisk Journal × List Record
  | [], s => (s, [])
  | (record, o) :: rest, s =>
    let result := Journal.append S o record s
    let (s', acked) := runAppends S rest (finalState result)
    (s', if (error? result).isNone then record :: acked else acked)

/-- The number of bytes that an append's write persists. -/
def persistedBytes (o : Oracle) (entry : Bytes) : Nat :=
  match o (.write 0) with
  | .proceed => entry.length
  | .fail persisted => min persisted entry.length
  | .crash persisted => min persisted entry.length

/-- If the append reaches its write and persists bytes, it extends a whole file
that ends below the record's version and has room for the bytes. -/
def AppendSafe (S : Stdlib) (s : OnDisk Journal) (record : Record) (o : Oracle) :
    Prop :=
  s.obj.Accepts S record → (∀ c ∈ [.ctxErr 0, .ctxErr 1, .seek], o c = .proceed) →
    0 < persistedBytes o (journalEntry S record) →
      ∃ ino log, s.obj.file = some ⟨ino, false⟩ ∧
        Parses S s.obj.limits (s.fs.content ino) log ∧ log.last < record.version ∧
        (s.fs.content ino).length + persistedBytes o (journalEntry S record) ≤
          s.obj.maxBytes ∧
        (persistedBytes o (journalEntry S record) = (journalEntry S record).length →
          log.records.length < s.obj.maxEntries)

/-- Every append of the run is safe in the state in which it is made. -/
def SafeAppends (S : Stdlib) : List (Record × Oracle) → OnDisk Journal → Prop
  | [], _ => True
  | (record, o) :: rest, s =>
    AppendSafe S s record o ∧
      SafeAppends S rest (finalState (Journal.append S o record s))

/-- Appending to a synced journal is safe. -/
theorem appendSafe_of_synced (h : s.obj.Synced S s.fs) (record : Record) (o : Oracle) :
    AppendSafe S s record o := by
  intro hacc _ _
  obtain ⟨ino, hfile, _, hparse, hsize⟩ := h.held
  refine ⟨ino, s.obj.log, hfile, hparse, hacc.newer, ?_, fun _ => hacc.entries⟩
  have hroom := hacc.bytes
  have hle : persistedBytes o (journalEntry S record) ≤
      (journalEntry S record).length := by
    unfold persistedBytes
    split <;> omega
  omega

/-! ## The invariant of a run -/

/-- The journal's open file is the file at its path, and it parses within the
journal's bounds. -/
structure Readable (S : Stdlib) (fs : FS) (j : Journal) (parsed : Parsed) : Prop where
  opened : j.closed = false
  limits : j.limits.JournalReady
  held : ∃ ino, j.file = some ⟨ino, false⟩ ∧ fs.dir (.file j.path) = some ino ∧
    parseJournal S (fs.content ino) j.limits = .ok parsed ∧
    (fs.content ino).length ≤ j.maxBytes
  entries : parsed.log.records.length ≤ j.maxEntries

/-- The file can be opened again and returns the journal's records, possibly
among others. -/
def Recoverable (S : Stdlib) (s : OnDisk Journal) : Prop :=
  ∃ parsed, Readable S s.fs s.obj parsed ∧
    s.obj.log.records.Sublist parsed.log.records

theorem Recoverable.of_synced (h : s.obj.Synced S s.fs) : Recoverable S s := by
  obtain ⟨ino, hfile, hdir, hparse, hsize⟩ := h.held
  refine ⟨_, ⟨h.opened, h.limits, ⟨ino, hfile, hdir, hparse, ?_⟩, h.entries⟩,
    List.Sublist.refl _⟩
  rw [hsize]
  exact h.bytes

theorem Readable.appended {fs : FS} {j : Journal} {parsed : Parsed} (h : Readable S fs j parsed)
    {record : Record} {n : Nat} (hnewer : j.log.last < record.version) :
    Readable S fs (j.appended record n hnewer) parsed :=
  ⟨h.opened, h.limits, h.held, h.entries⟩

private theorem ensureOpen_eq {j : Journal} {ino ino' : Nat}
    (hopened : j.closed = false) (hfile : j.file = some ⟨ino, false⟩)
    (hopen : j.ensureOpen = .ok ⟨ino', false⟩) : ino' = ino := by
  unfold Journal.ensureOpen at hopen
  rw [hfile] at hopen
  simp only [hopened] at hopen
  cases hopen
  rfl

/-- Bytes persisted by a safe append keep the file readable; it keeps its records
and a whole entry adds the new one. -/
theorem Readable.extend (hS : S.Lawful) {parsed : Parsed} (h : Readable S s.fs s.obj parsed)
    {record : Record} {o : Oracle} (hacc : s.obj.Accepts S record)
    (hcalls : ∀ c ∈ [.ctxErr 0, .ctxErr 1, .seek], o c = .proceed)
    (hsafe : AppendSafe S s record o) {ino n : Nat}
    (hopen : s.obj.ensureOpen = .ok ⟨ino, false⟩)
    (hn : persistedBytes o (journalEntry S record) =
      min n (journalEntry S record).length) :
    ∃ parsed', Readable S (s.fs.extend ino ((journalEntry S record).take n)) s.obj
        parsed' ∧
      parsed.log.records.Sublist parsed'.log.records ∧
      ((journalEntry S record).length ≤ n →
        parsed'.log.records = parsed.log.records ++ [record]) := by
  obtain ⟨ino', hfile, hdir, hparse, hbytes⟩ := h.held
  obtain rfl := ensureOpen_eq h.opened hfile hopen
  have hcontent : ∀ bytes, (s.fs.extend ino bytes).content ino =
      s.fs.content ino ++ bytes := by
    intro bytes
    simp [FS.extend, FS.store]
  have hpos : 0 < (journalEntry S record).length := by
    simp [journalEntry]
  by_cases hzero : n = 0
  · subst hzero
    refine ⟨parsed, ⟨h.opened, h.limits, ⟨ino, hfile, hdir, ?_, ?_⟩, h.entries⟩,
      List.Sublist.refl _, fun hle => by omega⟩
    · rw [hcontent, List.take_zero, List.append_nil]
      exact hparse
    · rw [hcontent, List.take_zero, List.append_nil]
      exact hbytes
  obtain ⟨ino', log, hfile', hwhole, hlast, hroom, hcount⟩ :=
    hsafe hacc hcalls (by omega)
  have hino : ino' = ino := by
    rw [hfile] at hfile'
    cases hfile'
    rfl
  subst hino
  have hlog : parsed.log = log := by
    unfold Parses at hwhole
    rw [hparse] at hwhole
    cases hwhole
    rfl
  have hlen : ((s.fs.content ino' ++ (journalEntry S record).take n).length : Int) ≤
      s.obj.maxBytes := by
    rw [List.length_append, List.length_take]
    omega
  have henc := hacc.valid.encodableIn hS h.limits
  by_cases hfull : (journalEntry S record).length ≤ n
  · rw [List.take_of_length_le hfull] at hlen ⊢
    have hgrown : Parses S s.obj.limits (s.fs.content ino' ++ journalEntry S record)
        (log.append record hlast) :=
      parseJournal_append_entry hwhole hacc.valid henc h.limits.normal hlast
    rw [← hcontent] at hgrown hlen
    have hrecords : (log.append record hlast).records =
        parsed.log.records ++ [record] := by
      rw [hlog, Segment.records_append]
    refine ⟨_, ⟨h.opened, h.limits, ⟨ino', hfile, hdir, hgrown, hlen⟩, ?_⟩, ?_,
      fun _ => hrecords⟩
    · rw [hrecords, List.length_append, List.length_singleton, hlog]
      have hroom := hcount (by omega)
      omega
    · rw [hrecords]
      exact List.sublist_append_left _ _
  · have htorn := parseJournal_append_torn hwhole hacc.valid henc h.limits.normal
      (Nat.pos_of_ne_zero hzero) (not_le.mp hfull)
    have hentries := h.entries
    rw [hlog] at hentries ⊢
    rw [← hcontent] at htorn hlen
    exact ⟨_, ⟨h.opened, h.limits, ⟨ino', hfile, hdir, htorn, hlen⟩, hentries⟩,
      List.Sublist.refl _, fun hle => absurd hle hfull⟩

/-- What opening the file again depends on besides the file. -/
def Journal.SameBounds (j j' : Journal) : Prop :=
  j'.path = j.path ∧ j'.limits = j.limits ∧ j'.maxBytes = j.maxBytes ∧
    j'.maxEntries = j.maxEntries

/-- One safe append keeps the file recoverable, and acknowledges exactly the
record it adds to the journal. -/
theorem Recoverable.step (hS : S.Lawful) {s' : OnDisk Journal} (h : Recoverable S s)
    {record : Record} {o : Oracle} (hsafe : AppendSafe S s record o)
    (hs' : finalState (Journal.append S o record s) = s') :
    Recoverable S s' ∧ s.obj.SameBounds s'.obj ∧
      s'.obj.log.records = s.obj.log.records ++
        (if (error? (Journal.append S o record s)).isNone then [record] else []) := by
  obtain ⟨parsed, hread, hsub⟩ := h
  subst hs'
  rcases Journal.append_cases S o record s with ⟨e, hrun⟩ |
    ⟨hacc, ino, hopen, hcalls, ⟨e, n, hwrite, hrun⟩ | ⟨e, hwrite, _, hrun⟩ |
      ⟨hwrite, hrun⟩⟩
  · rw [hrun]
    exact ⟨⟨parsed, hread, hsub⟩, ⟨rfl, rfl, rfl, rfl⟩, (List.append_nil _).symm⟩
  · have hn : persistedBytes o (journalEntry S record) =
        min n (journalEntry S record).length := by
      unfold persistedBytes
      rcases hwrite with hw | hw <;> rw [hw]
    obtain ⟨parsed', hread', hsub', _⟩ := hread.extend hS hacc hcalls hsafe hopen hn
    rw [hrun]
    exact ⟨⟨parsed', hread', hsub.trans hsub'⟩, ⟨rfl, rfl, rfl, rfl⟩,
      (List.append_nil _).symm⟩
  all_goals
    have hn : persistedBytes o (journalEntry S record) =
        min (journalEntry S record).length (journalEntry S record).length := by
      unfold persistedBytes
      rw [hwrite, Nat.min_self]
    obtain ⟨parsed', hread', hsub', hadded⟩ :=
      hread.extend hS hacc hcalls hsafe hopen hn
    rw [List.take_length] at hread'
    rw [hrun]
  · exact ⟨⟨parsed', hread', hsub.trans hsub'⟩, ⟨rfl, rfl, rfl, rfl⟩,
      (List.append_nil _).symm⟩
  · refine ⟨⟨parsed', hread'.appended hacc.newer, ?_⟩, ⟨rfl, rfl, rfl, rfl⟩, rfl⟩
    change (s.obj.log.records ++ [record]).Sublist parsed'.log.records
    rw [hadded (le_refl _)]
    exact hsub.append (List.Sublist.refl _)

/-- A run of safe appends keeps the file recoverable and acknowledges exactly
the records it adds to the journal. -/
theorem Recoverable.run (hS : S.Lawful) (steps : List (Record × Oracle)) :
    ∀ {s : OnDisk Journal}, Recoverable S s → SafeAppends S steps s →
      Recoverable S (runAppends S steps s).1 ∧
        s.obj.SameBounds (runAppends S steps s).1.obj ∧
        (runAppends S steps s).1.obj.log.records =
          s.obj.log.records ++ (runAppends S steps s).2 := by
  induction steps with
  | nil =>
    intro s h _
    exact ⟨h, ⟨rfl, rfl, rfl, rfl⟩, (List.append_nil _).symm⟩
  | cons step rest ih =>
    obtain ⟨record, o⟩ := step
    intro s h hsafe
    obtain ⟨hstep, ⟨hpath, hlimits, hbytes, hentries⟩, hrecords⟩ :=
      h.step hS hsafe.1 rfl
    obtain ⟨hrun, ⟨hpath', hlimits', hbytes', hentries'⟩, hrecords'⟩ :=
      ih hstep hsafe.2
    refine ⟨hrun, ⟨hpath'.trans hpath, hlimits'.trans hlimits,
      hbytes'.trans hbytes, hentries'.trans hentries⟩, ?_⟩
    simp only [runAppends]
    rw [hrecords', hrecords]
    split <;> simp

/-! ## Opening the file again -/

/-- Opening a recoverable file again returns the journal's records in order. -/
theorem Recoverable.reopen (h : Recoverable S s) {path : String} (hpath : path ≠ "")
    {options : JournalOptions} (hwith : s.obj.OpenedWith path options)
    (hmax : s.obj.maxBytes < maxInt64) : ∃ j' recovery' fs',
      openJournal S Oracle.none path options s.fs = .ok (j', recovery') fs' ∧
        s.obj.records.Sublist j'.records := by
  obtain ⟨parsed, hread, hsub⟩ := h
  obtain ⟨ino, _, hdir, hparse, hlen⟩ := hread.held
  obtain ⟨rfl, n, hnorm, hlimits, hbytes, hentries⟩ := hwith
  have hcount := hread.entries
  rw [hlimits] at hparse
  rw [hbytes] at hlen hmax
  rw [hentries] at hcount
  exact ⟨_, _, _, openJournal_parsed (fun _ => rfl) hpath hnorm hdir hparse hlen hmax
    hcount, hsub⟩

theorem Journal.SameBounds.openedWith {j j' : Journal} (h : j.SameBounds j')
    {path : String} {options : JournalOptions} (hwith : j.OpenedWith path options) :
    j'.OpenedWith path options := by
  obtain ⟨hpath, hlimits, hbytes, hentries⟩ := h
  obtain ⟨rfl, n, hnorm, hl, hb, he⟩ := hwith
  exact ⟨hpath, n, hnorm, hlimits.trans hl, hbytes.trans hb, hentries.trans he⟩

/-- Safe appends on a synced journal survive. -/
theorem Journal.Synced.appends_survive (hS : S.Lawful) (h : s.obj.Synced S s.fs) {path : String}
    {options : JournalOptions} (hwith : s.obj.OpenedWith path options)
    (hmax : s.obj.maxBytes < maxInt64) {steps : List (Record × Oracle)}
    (hsafe : SafeAppends S steps s) : ∃ j' recovery' fs',
      openJournal S Oracle.none path options (runAppends S steps s).1.fs =
        .ok (j', recovery') fs' ∧
      (s.obj.records ++ (runAppends S steps s).2).Sublist j'.records := by
  obtain ⟨hrun, hbounds, hrecords⟩ := (Recoverable.of_synced h).run hS steps hsafe
  have hname : path ≠ "" := by
    rw [← hwith.path]
    exact h.named
  have hmax' : (runAppends S steps s).1.obj.maxBytes < maxInt64 := by
    rw [hbounds.2.2.1]
    exact hmax
  obtain ⟨j', recovery', fs', hopen, hsub⟩ :=
    hrun.reopen hname (hbounds.openedWith hwith) hmax'
  refine ⟨j', recovery', fs', hopen, ?_⟩
  change (s.obj.log.records ++ _).Sublist _
  rw [← hrecords]
  exact hsub

/-- Appends without faults on a synced journal are safe. -/
theorem Journal.Synced.safeAppends (hS : S.Lawful) (records : List Record) :
    ∀ {s : OnDisk Journal}, s.obj.Synced S s.fs →
      SafeAppends S (records.map fun r => (r, Oracle.none)) s := by
  induction records with
  | nil =>
    intro s _
    exact trivial
  | cons r rest ih =>
    intro s h
    exact ⟨appendSafe_of_synced h r Oracle.none, ih (h.append_none hS r)⟩

/-- In every run of safe appends on an open journal, opening the file again under
the same options succeeds and returns, in order, the records the journal was
opened with and every record whose append returned nil. -/
theorem acked_appends_survive {S : Stdlib} (hS : S.Lawful) {o : Oracle}
    {path : String} {options : JournalOptions} {fs₀ fs : FS} {j : Journal}
    {recovery : Recovery}
    (hopen : openJournal S o path options fs₀ = .ok (j, recovery) fs)
    (hmax : j.maxBytes < maxInt64) (steps : List (Record × Oracle))
    (hsafe : SafeAppends S steps ⟨fs, j⟩) :
    ∃ j' recovery' fs',
      openJournal S Oracle.none path options (runAppends S steps ⟨fs, j⟩).1.fs =
        .ok (j', recovery') fs' ∧
      (j.records ++ (runAppends S steps ⟨fs, j⟩).2).Sublist j'.records := by
  obtain ⟨hsynced, hwith⟩ := openJournal_synced hopen
  have hstart : (⟨fs, j⟩ : OnDisk Journal).obj.Synced S fs := hsynced
  exact hstart.appends_survive hS hwith hmax hsafe

/-! ## Runs of the concrete model -/

namespace Sample

/-- The first append tears after one byte and fails; the second succeeds. -/
def tornRun : List (Record × Oracle) :=
  [(first, Oracle.single (.write 0) (.fail 1)), (second, Oracle.none)]

/-- The first append succeeds; the second tears after five bytes and fails. -/
def safeRun : List (Record × Oracle) :=
  [(first, Oracle.none), (second, Oracle.single (.write 0) (.fail 5))]

end Sample

open Sample in
/-- The journal is created, the append of the first record tears after one byte,
the append of the second record returns nil, and the file cannot be opened. -/
theorem acked_append_lost_after_torn_write :
    openJournal goStdlib Oracle.none "journal" options FS.empty =
        .ok (opened.obj, ⟨false, Version.zero, Version.zero, 0⟩) opened.fs ∧
      (runAppends goStdlib tornRun opened).2 = [second] ∧
      error? (openJournal goStdlib Oracle.none "journal" options
        (runAppends goStdlib tornRun opened).1.fs) = some .journalCorrupt :=
  ⟨openJournal_opened, by decide +kernel, by decide +kernel⟩

open Sample in
/-- A run with an acknowledged record and a torn write after it. -/
theorem acked_append_survives_torn_write :
    (runAppends goStdlib safeRun opened).2 = [first] ∧
      ∃ j' recovery' fs',
        openJournal goStdlib Oracle.none "journal" options
          (runAppends goStdlib safeRun opened).1.fs = .ok (j', recovery') fs' ∧
        (opened.obj.records ++ (runAppends goStdlib safeRun opened).2).Sublist
          j'.records := by
  have hsynced := (openJournal_synced openJournal_opened).1
  have hsafe : SafeAppends goStdlib safeRun opened := by
    have hnext := hsynced.append_none goStdlib_lawful first
    exact ⟨appendSafe_of_synced hsynced _ _, appendSafe_of_synced hnext _ _, trivial⟩
  exact ⟨by decide +kernel,
    acked_appends_survive goStdlib_lawful openJournal_opened (by decide) safeRun hsafe⟩

end StreamHive.Lifecycle
