import StreamHive.Lifecycle.GoStdlib

/-!
# Torn tails

A crash can leave any prefix of the bytes that were being appended to a journal file.
Wherever the file of a journal is cut behind its header, the parser finds the records
whose entries are complete and reports whether bytes of another entry follow.

## Main result

* `torn_tail` — the cut file, the file repaired up to its valid size, and that no file
  makes the parser read out of range.
-/

namespace StreamHive.Lifecycle

open Verified ByteString Effect Log

/-! ## Cuts -/

/-- The end of the first `i` entries in the file of the log. -/
def entryEnd (S : Stdlib) (log : JournalLog) (i : Nat) : Nat :=
  journalHeaderBytes + (entryBytes S (log.records.take i)).length

section Cuts

variable {S : Stdlib} {log : JournalLog} {r : Record}

theorem entryEnd_length (S : Stdlib) (log : JournalLog) :
    entryEnd S log log.records.length = (journalBytes S log).length := by
  unfold entryEnd
  rw [List.take_length, length_journalBytes]

theorem entryEnd_le (S : Stdlib) (log : JournalLog) (i : Nat) :
    entryEnd S log i ≤ (journalBytes S log).length := by
  have hsplit : log.records.take i ++ log.records.drop i = log.records :=
    List.take_append_drop i log.records
  have hbytes := entryBytes_append S (log.records.take i) (log.records.drop i)
  rw [hsplit] at hbytes
  unfold entryEnd
  rw [length_journalBytes, hbytes, List.length_append]
  omega

theorem entryEnd_append (h : log.last < r.version) {i : Nat} (hi : i ≤ log.records.length) :
    entryEnd S (log.append r h) i = entryEnd S log i := by
  unfold entryEnd
  rw [Segment.records_append, List.take_append_of_le_length hi]

theorem entryEnd_append_last (h : log.last < r.version) :
    entryEnd S (log.append r h) (log.records.length + 1) =
      (journalBytes S log).length + (journalEntry S r).length := by
  have hlen : (log.append r h).records.length = log.records.length + 1 := by simp
  rw [← hlen, entryEnd_length, journalBytes_append, List.length_append]

/-- What the parser should find in the file of the log cut at `n`. -/
structure CutAt (S : Stdlib) (log : JournalLog) (n : Nat) (p : Parsed) : Prop where
  floor : p.log.floor = log.floor
  records : ∃ k ≤ log.records.length, p.log.records = log.records.take k ∧
    p.validSize = entryEnd S log k ∧
    ∀ i < log.records.length, i < k ↔ entryEnd S log (i + 1) ≤ n
  truncated : p.truncated = true ↔ ∀ i ≤ log.records.length, entryEnd S log i ≠ n

/-- A cut before the last entry is a cut of the file without it. -/
theorem CutAt.append {n : Nat} {p : Parsed} (hcut : CutAt S log n p)
    (h : log.last < r.version) (hn : n ≤ (journalBytes S log).length)
    (hpos : 0 < (journalEntry S r).length) : CutAt S (log.append r h) n p := by
  have hlen : (log.append r h).records.length = log.records.length + 1 := by simp
  have hlast := entryEnd_append_last (S := S) h
  obtain ⟨k, hk, hrecords, hsize, hwithin⟩ := hcut.records
  refine ⟨hcut.floor, ⟨k, by omega, ?_, ?_, ?_⟩, ?_⟩
  · rw [hrecords, Segment.records_append, List.take_append_of_le_length hk]
  · rw [hsize, entryEnd_append h hk]
  · intro i hi
    by_cases hold : i < log.records.length
    · rw [entryEnd_append h (by omega)]
      exact hwithin i hold
    · have hi' : i = log.records.length := by omega
      rw [hi', hlast]
      omega
  · rw [hcut.truncated]
    constructor
    · intro hne i hi
      by_cases hold : i ≤ log.records.length
      · rw [entryEnd_append h hold]
        exact hne i hold
      · have hi' : i = log.records.length + 1 := by omega
        rw [hi', hlast]
        omega
    · intro hne i hi
      have hold := hne i (by omega)
      rwa [entryEnd_append h hi] at hold

/-- The whole file. -/
theorem cutAt_whole (S : Stdlib) (log : JournalLog) :
    CutAt S log (journalBytes S log).length ⟨log, (journalBytes S log).length, false⟩ := by
  have hend := entryEnd_length S log
  refine ⟨rfl, ⟨log.records.length, le_rfl, ?_, hend.symm, ?_⟩, ?_⟩
  · rw [List.take_length]
  · intro i hi
    exact ⟨fun _ => entryEnd_le S log (i + 1), fun _ => hi⟩
  · constructor
    · exact nofun
    · intro hne
      exact absurd hend (hne _ le_rfl)

/-- A cut inside the last entry. -/
theorem cutAt_torn (h : log.last < r.version) {m : Nat} (hpos : 0 < m)
    (hm : m < (journalEntry S r).length) :
    CutAt S (log.append r h) ((journalBytes S log).length + m)
      ⟨log, (journalBytes S log).length, true⟩ := by
  have hlen : (log.append r h).records.length = log.records.length + 1 := by simp
  have hlast := entryEnd_append_last (S := S) h
  refine ⟨rfl, ⟨log.records.length, by omega, ?_, ?_, ?_⟩, ?_⟩
  · rw [Segment.records_append, List.take_append_of_le_length le_rfl, List.take_length]
  · rw [entryEnd_append h le_rfl, entryEnd_length]
  · intro i hi
    by_cases hold : i < log.records.length
    · have hle := entryEnd_le S log (i + 1)
      rw [entryEnd_append h (by omega)]
      omega
    · have hi' : i = log.records.length := by omega
      rw [hi', hlast]
      omega
  · refine ⟨fun _ i hi => ?_, fun _ => rfl⟩
    by_cases hold : i ≤ log.records.length
    · have hle := entryEnd_le S log i
      rw [entryEnd_append h hold]
      omega
    · have hi' : i = log.records.length + 1 := by omega
      rw [hi', hlast]
      omega

/-- Wherever the file is cut behind its header, the parser finds what is complete. -/
theorem parseJournal_cut (hS : S.Lawful) {limits : Limits} (hlimits : limits.JournalReady)
    (log : JournalLog) :
    (∀ r ∈ log.records, r.Valid S limits) → ∀ n, journalHeaderBytes ≤ n →
      n ≤ (journalBytes S log).length →
      ∃ p, parseJournal S ((journalBytes S log).take n) limits = .ok p ∧ CutAt S log n p := by
  induction log using Segment.induction with
  | reset w =>
    intro _ n hheader hn
    have hlen : (journalBytes S (Segment.reset Record.version w)).length =
        journalHeaderBytes := by
      rw [length_journalBytes]
      rfl
    have hwhole : n = (journalBytes S (Segment.reset Record.version w)).length := by omega
    rw [hwhole, List.take_length]
    exact ⟨_, parses_journalBytes hS hlimits (by simp), cutAt_whole S _⟩
  | append log r h ih =>
    intro hvalid n hheader hn
    have hold : ∀ t ∈ log.records, t.Valid S limits :=
      fun t ht => hvalid t (by simp [ht])
    have hr : r.Valid S limits := hvalid r (by simp)
    have henc := hr.encodableIn hS hlimits
    have hpos : 0 < (journalEntry S r).length := by
      unfold journalEntry
      rw [length_envelope]
      omega
    rw [journalBytes_append, List.length_append] at hn
    rw [journalBytes_append]
    by_cases hbefore : n ≤ (journalBytes S log).length
    · obtain ⟨p, hparse, hcut⟩ := ih hold n hheader hbefore
      rw [List.take_append_of_le_length hbefore]
      exact ⟨p, hparse, hcut.append h hbefore hpos⟩
    obtain ⟨m, rfl⟩ : ∃ m, n = (journalBytes S log).length + m :=
      ⟨n - (journalBytes S log).length, by omega⟩
    have htake : (journalBytes S log ++ journalEntry S r).take
        ((journalBytes S log).length + m) =
          journalBytes S log ++ (journalEntry S r).take m := by
      rw [List.take_append, List.take_of_length_le (by omega), Nat.add_sub_cancel_left]
    have hparses := parses_journalBytes hS hlimits hold
    rw [htake]
    by_cases hlast : m = (journalEntry S r).length
    · rw [hlast, List.take_length, ← journalBytes_append S log r h]
      have hwhole := cutAt_whole S (log.append r h)
      rw [journalBytes_append, List.length_append] at hwhole
      refine ⟨_, ?_, hwhole⟩
      rw [journalBytes_append]
      have happend := parseJournal_append_entry hparses hr henc hlimits.normal h
      unfold Parses at happend
      rwa [List.length_append] at happend
    · have hm : m < (journalEntry S r).length := by omega
      exact ⟨_, parseJournal_append_torn hparses hr henc hlimits.normal (by omega) hm,
        cutAt_torn h (by omega) hm⟩

end Cuts

/-! ## Slices -/

theorem readEntry_in_range (S : Stdlib) (limits : Limits) (data : Bytes) (offset : Nat) :
    readEntry S limits data offset ≠ .error .panic := by
  unfold readEntry
  dsimp only
  split
  · exact nofun
  next hrem =>
  obtain ⟨word, hword⟩ := slice_isSome (show offset ≤ offset + 4 by omega)
    (show offset + 4 ≤ data.length by omega)
  rw [hword]
  dsimp only
  split
  · exact nofun
  split
  · exact nofun
  next htotal =>
  obtain ⟨payload, hpayload⟩ := slice_isSome
    (show offset + 4 ≤ offset + 4 + beDecode word by omega)
    (show offset + 4 + beDecode word ≤ data.length by omega)
  obtain ⟨want, hwant⟩ := slice_isSome
    (show offset + 4 + beDecode word ≤ offset + (4 + beDecode word + 4) by omega)
    (show offset + (4 + beDecode word + 4) ≤ data.length by omega)
  rw [hpayload, hwant]
  dsimp only
  split
  · exact nofun
  split
  · split <;> exact nofun
  · exact nofun

theorem parseEntries_in_range (S : Stdlib) (limits : Limits) (data : Bytes) :
    ∀ (fuel offset : Nat) (log : JournalLog), data.length - offset < fuel →
      parseEntries S limits data fuel offset log ≠ .error .panic := by
  intro fuel
  induction fuel with
  | zero =>
    intro offset log hfuel
    omega
  | succ fuel ih =>
    intro offset log hfuel
    unfold parseEntries
    split
    swap
    · simp
    next hmore =>
    cases hread : readEntry S limits data offset with
    | error e =>
      dsimp only
      intro he
      rw [Except.error.inj he] at hread
      exact readEntry_in_range S limits data offset hread
    | ok found =>
      cases found with
      | none => simp
      | some entry =>
        obtain ⟨hpos, _, _⟩ := readEntry_bounds hread
        dsimp only
        split
        · simp
        · exact ih _ _ (by omega)

/-- The parser never slices out of range. -/
theorem parseJournal_in_range (S : Stdlib) (limits : Limits) (data : Bytes) :
    parseJournal S data limits ≠ .error .panic := by
  unfold parseJournal
  split
  · exact nofun
  cases hheader : decodeJournalHeader S (data.take journalHeaderBytes) with
  | error e =>
    intro h
    have hpanic : e = .panic := Except.error.inj h
    rw [hpanic] at hheader
    unfold decodeJournalHeader at hheader
    split at hheader
    · cases hheader
    · split at hheader <;> cases hheader
  | ok floor => exact parseEntries_in_range S limits data _ _ _ (by omega)

/-! ## The theorem -/

/-- The file of a journal cut at any place behind its header parses to the floor, to
exactly the records whose entries are complete, to the end of the last of them and to
whether the cut is inside an entry.  Any accepted file cut at its valid size is accepted
with the same contents, and nothing torn.  No file is read out of range. -/
theorem torn_tail {S : Stdlib} (hS : S.Lawful) {options normalized : JournalOptions}
    (hoptions : options.normalized = .ok normalized) :
    (∀ log : JournalLog, (∀ r ∈ log.records, r.Valid S normalized.limits) →
      ∀ n, journalHeaderBytes ≤ n → n ≤ (journalBytes S log).length →
        ∃ p, parseJournal S ((journalBytes S log).take n) normalized.limits = .ok p ∧
          CutAt S log n p) ∧
    (∀ limits data p, parseJournal S data limits = .ok p →
      parseJournal S (data.take p.validSize) limits = .ok ⟨p.log, p.validSize, false⟩) ∧
    ∀ limits data, parseJournal S data limits ≠ .error .panic := by
  refine ⟨?_, ?_, fun limits data => parseJournal_in_range S limits data⟩
  · intro log hvalid n hheader hn
    have hready := (JournalOptions.normalized_ready hoptions).1
    exact parseJournal_cut hS hready log hvalid n hheader hn
  · intro limits data p h
    obtain ⟨hparses, hle⟩ := parseJournal_take_validSize h
    have hlen : (data.take p.validSize).length = p.validSize := by
      rw [List.length_take]
      omega
    unfold Parses at hparses
    rwa [hlen] at hparses

open Sample in
/-- The cut leaves one byte of the second of two entries. -/
theorem torn_tail_sample :
    ∃ p, parseJournal goStdlib
        ((journalBytes goStdlib twoEntries).take (entryEnd goStdlib twoEntries 1 + 1))
        normalOptions.limits = .ok p ∧ p.truncated = true ∧ p.log.records = [first] := by
  have hbounds : journalHeaderBytes ≤ entryEnd goStdlib twoEntries 1 + 1 ∧
      entryEnd goStdlib twoEntries 1 + 1 ≤ (journalBytes goStdlib twoEntries).length ∧
      entryEnd goStdlib twoEntries 1 + 1 < entryEnd goStdlib twoEntries 2 := by decide +kernel
  have hboundary : ∀ i ≤ twoEntries.records.length,
      entryEnd goStdlib twoEntries i ≠ entryEnd goStdlib twoEntries 1 + 1 := by decide +kernel
  obtain ⟨p, hparse, hcut⟩ := (torn_tail goStdlib_lawful
    (show options.normalized = .ok normalOptions from rfl)).1 twoEntries (by decide +kernel) _
    hbounds.1 hbounds.2.1
  obtain ⟨k, _, hrecords, _, hwithin⟩ := hcut.records
  have hfirst := (hwithin 0 (by decide)).mpr (by decide +kernel)
  have hsecond := (hwithin 1 (by decide)).not.mpr (not_le.mpr hbounds.2.2)
  have hk : k = 1 := by omega
  rw [hk] at hrecords
  exact ⟨p, hparse, hcut.truncated.mpr hboundary, hrecords⟩

end StreamHive.Lifecycle
