import StreamHive.Lifecycle.GoStdlib

/-!
# Damage inside a journal file

The parser finds each entry through the length words before it.  A damaged
length word therefore does not only spoil its own entry: it decides where the
parser looks next, and a length that reaches past the end of the file is taken
for a torn last entry, whatever intact entries follow.

`Reads S limits last rest n torn` says that the bytes `rest` can be read as `n`
envelopes of valid, newer and newer records, up to the end of the bytes or, if `torn`,
up to a place where they break off inside an entry.  It is what the scan of the parser
accepts (`parseJournal_damaged`).  A torn reading makes `OpenJournal` cut the file.

## Main results

* `readEntry_torn_iff`, `readEntry_whole_iff` — what one iteration of the parser
  accepts, in terms of the bytes before it;
* `interior_damage_fails_closed` — a journal with one damaged entry is refused and
  left as it is exactly when the damage spares the length word, or the bytes from the
  damaged entry on cannot be read in this way.
-/

namespace StreamHive.Lifecycle

open Verified ByteString Effect FileSystem Log

variable {log : JournalLog}

/-! ## One entry, in terms of bytes -/

/-- The number in the length word at the front of the bytes. -/
def lengthWord (rest : Bytes) : Nat := beDecode (rest.take 4)

/-- The bytes end inside an entry. -/
def BreaksOff (limits : Limits) (rest : Bytes) : Prop :=
  rest.length < 4 ∨
    (lengthWord rest ≠ 0 ∧ lengthWord rest ≤ limits.maxRecordBytes ∧
      rest.length < 4 + lengthWord rest + 4)

theorem lengthWord_envelope {S : Stdlib} {payload after : Bytes}
    (h : payload.length ≤ maxUint32) :
    lengthWord (envelope S payload ++ after) = payload.length := by
  unfold lengthWord envelope
  rw [List.append_assoc, List.append_assoc, List.take_left' (length_beEncode 4 _)]
  exact beDecode_length h

/-- The payload is the encoding of a valid record within the limits. -/
structure PayloadOf (S : Stdlib) (limits : Limits) (payload : Bytes) (r : Record) :
    Prop where
  nonempty : payload ≠ []
  size : payload.length ≤ limits.maxRecordBytes
  decodes : S.record.decode payload = .one r
  valid : r.Valid S limits

section

variable {S : Stdlib} {limits : Limits} {rest before : Bytes} {r : Record} {total : Nat}

/-- Reading behind a known front is reading at the start of the rest. -/
theorem readEntry_front (S : Stdlib) (limits : Limits) (before rest : Bytes) :
    readEntry S limits (before ++ rest) before.length = readEntry S limits rest 0 := by
  have hlen : (before ++ rest).length - before.length = rest.length - 0 := by
    rw [List.length_append]
    omega
  have hword := slice_add before rest 0 4
  have hpayload : ∀ n, slice (before ++ rest) (before.length + 4) (before.length + 4 + n) =
      slice rest (0 + 4) (0 + 4 + n) := by
    intro n
    rw [Nat.add_assoc, slice_add, Nat.zero_add]
  have hsum : ∀ n, slice (before ++ rest) (before.length + 4 + n)
      (before.length + (4 + n + 4)) = slice rest (0 + 4 + n) (0 + (4 + n + 4)) := by
    intro n
    rw [Nat.add_assoc, slice_add, Nat.zero_add, Nat.zero_add]
  unfold readEntry
  rw [Nat.add_zero] at hword
  simp only [hlen, hword, hpayload, hsum, Nat.zero_add]

/-- The checks on a payload and checksum that lie within the file. -/
private def checkWindow (S : Stdlib) (limits : Limits) (payload want : Bytes) (total : Nat) :
    Except Error (Option (Record × Nat)) :=
  if (S.checksum payload).toNat ≠ beDecode want then
    .error .journalChecksum
  else
    match S.record.decode payload with
    | .one record =>
      match record.validate S limits with
      | .ok () => .ok (some (record, total))
      | .error e => .error (.detailed .journalCorrupt "record validation" e)
    | _ => .error (.detailed .journalCorrupt "record json" .json)

private theorem checkWindow_eq_ok {payload want : Bytes} {found : Option (Record × Nat)} :
    checkWindow S limits payload want total = .ok found ↔
      ∃ r, (S.checksum payload).toNat = beDecode want ∧ S.record.decode payload = .one r ∧
        r.Valid S limits ∧ found = some (r, total) := by
  unfold checkWindow
  by_cases hsum : (S.checksum payload).toNat = beDecode want
  · rw [if_neg (not_not.mpr hsum)]
    cases hdecode : S.record.decode payload with
    | one record =>
      cases hvalid : record.validate S limits with
      | ok _ =>
        simp only [hvalid]
        constructor
        · intro h
          exact ⟨record, hsum, rfl, hvalid, (Except.ok.inj h).symm⟩
        · rintro ⟨r, _, hr, _, rfl⟩
          cases hr
          rfl
      | error e =>
        simp only [hvalid]
        constructor
        · intro h
          cases h
        · rintro ⟨r, _, hr, hok, _⟩
          cases hr
          rw [Record.Valid, hvalid] at hok
          cases hok
    | _ => simp
  · rw [if_pos hsum]
    simp [hsum]

/-- One iteration of the parser, by the length word at its offset. -/
private theorem readEntry_zero (hlong : 4 ≤ rest.length) :
    readEntry S limits rest 0 =
      if lengthWord rest = 0 ∨ lengthWord rest > limits.maxRecordBytes then
        .error .journalCorrupt
      else if rest.length < 4 + lengthWord rest + 4 then
        .ok none
      else
        checkWindow S limits ((rest.drop 4).take (lengthWord rest))
          ((rest.drop (4 + lengthWord rest)).take 4) (4 + lengthWord rest + 4) := by
  have hword : slice rest 0 (0 + 4) = some (rest.take 4) := by
    unfold slice
    rw [if_pos ⟨by omega, by omega⟩]
    simp
  unfold readEntry
  simp only [Nat.sub_zero, hword]
  rw [if_neg (not_lt.mpr hlong)]
  unfold lengthWord
  generalize beDecode (rest.take 4) = length
  by_cases hlength : length = 0 ∨ (length : Int) > limits.maxRecordBytes
  · rw [if_pos hlength, if_pos hlength]
  rw [if_neg hlength, if_neg hlength]
  by_cases hpast : rest.length < 4 + length + 4
  · rw [if_pos hpast, if_pos hpast]
  rw [if_neg hpast, if_neg hpast]
  have hpayload : slice rest (0 + 4) (0 + 4 + length) = some ((rest.drop 4).take length) := by
    unfold slice
    rw [if_pos ⟨by omega, by omega⟩, List.drop_take]
    simp
  have hsum : slice rest (0 + 4 + length) (0 + (4 + length + 4)) =
      some ((rest.drop (4 + length)).take 4) := by
    unfold slice
    rw [if_pos ⟨by omega, by omega⟩, List.drop_take]
    simp
  simp only [hpayload, hsum]
  rfl

/-- The parser takes the rest of the file for a torn entry exactly when it
breaks off. -/
theorem readEntry_torn_iff :
    readEntry S limits rest 0 = .ok none ↔ BreaksOff limits rest := by
  unfold BreaksOff
  by_cases hshort : rest.length < 4
  · unfold readEntry
    simp [hshort]
  rw [readEntry_zero (not_lt.mp hshort)]
  by_cases hlength : lengthWord rest = 0 ∨ lengthWord rest > limits.maxRecordBytes
  · rw [if_pos hlength]
    constructor
    · intro h
      cases h
    · intro h
      omega
  rw [if_neg hlength]
  by_cases hpast : rest.length < 4 + lengthWord rest + 4
  · rw [if_pos hpast]
    constructor
    · intro _
      omega
    · intro _
      rfl
  rw [if_neg hpast, checkWindow_eq_ok]
  constructor
  · rintro ⟨r, _, _, _, h⟩
    cases h
  · intro h
    omega

private theorem eq_envelope {length : Nat} (hword : lengthWord rest = length)
    (hlen : 4 + length + 4 ≤ rest.length)
    (hsum : (S.checksum ((rest.drop 4).take length)).toNat =
      beDecode ((rest.drop (4 + length)).take 4)) :
    rest = envelope S ((rest.drop 4).take length) ++ rest.drop (4 + length + 4) := by
  have hpayload : ((rest.drop 4).take length).length = length := by
    rw [List.length_take, List.length_drop]
    omega
  have hfirst : beEncode 4 length = rest.take 4 := by
    have h4 : (rest.take 4).length = 4 := by
      rw [List.length_take]
      omega
    have h := beEncode_beDecode (rest.take 4)
    rw [h4] at h
    rw [← hword]
    exact h
  have hlast : beEncode 4 (beDecode ((rest.drop (4 + length)).take 4)) =
      (rest.drop (4 + length)).take 4 := by
    have h4 : ((rest.drop (4 + length)).take 4).length = 4 := by
      rw [List.length_take, List.length_drop]
      omega
    have h := beEncode_beDecode ((rest.drop (4 + length)).take 4)
    rw [h4] at h
    exact h
  unfold envelope
  rw [hpayload, hsum, hfirst, hlast]
  have hmid : rest.drop 4 = (rest.drop 4).take length ++ rest.drop (4 + length) := by
    conv_lhs => rw [← List.take_append_drop length (rest.drop 4), List.drop_drop]
  have hend : rest.drop (4 + length) =
      (rest.drop (4 + length)).take 4 ++ rest.drop (4 + length + 4) := by
    conv_lhs => rw [← List.take_append_drop 4 (rest.drop (4 + length)), List.drop_drop]
  rw [List.append_assoc, List.append_assoc, ← hend, ← hmid, List.take_append_drop]

/-- The parser reads an entry exactly from the envelope of a record. -/
theorem readEntry_whole_iff (hmax : limits.maxRecordBytes ≤ maxUint32) :
    readEntry S limits rest 0 = .ok (some (r, total)) ↔
      ∃ payload after, rest = envelope S payload ++ after ∧
        PayloadOf S limits payload r ∧ total = (envelope S payload).length := by
  constructor
  · intro h
    by_cases hshort : rest.length < 4
    · unfold readEntry at h
      simp [hshort] at h
    rw [readEntry_zero (not_lt.mp hshort)] at h
    by_cases hlength : lengthWord rest = 0 ∨ lengthWord rest > limits.maxRecordBytes
    · rw [if_pos hlength] at h
      cases h
    rw [if_neg hlength] at h
    by_cases hpast : rest.length < 4 + lengthWord rest + 4
    · rw [if_pos hpast] at h
      cases h
    rw [if_neg hpast, checkWindow_eq_ok] at h
    obtain ⟨r', hsum, hdecode, hvalid, heq⟩ := h
    cases heq
    have hpayload : ((rest.drop 4).take (lengthWord rest)).length = lengthWord rest := by
      rw [List.length_take, List.length_drop]
      omega
    refine ⟨_, _, eq_envelope rfl (not_lt.mp hpast) hsum, ⟨?_, ?_, hdecode, hvalid⟩, ?_⟩
    · rw [← List.length_pos_iff, hpayload]
      omega
    · rw [hpayload]
      omega
    · rw [length_envelope, hpayload]
  · rintro ⟨payload, after, rfl, hpayload, rfl⟩
    have hpos : 0 < payload.length := List.length_pos_iff.mpr hpayload.nonempty
    have hsize := hpayload.size
    have hword : payload.length ≤ maxUint32 := by omega
    obtain ⟨hlen, hpay, hsum⟩ := slice_envelope S [] payload after
    simp only [List.nil_append, List.length_nil] at hlen hpay hsum
    unfold readEntry
    simp only [List.length_append, length_envelope, hlen, beDecode_length hword]
    rw [if_neg (by omega), if_neg (by omega), if_neg (by omega)]
    simp only [hpay, hsum, beDecode_checksum, ne_eq, not_true_eq_false, if_false,
      hpayload.decodes]
    rw [show r.validate S limits = .ok () from hpayload.valid]

/-! ## What a scan accepts -/

/-- The bytes are `n` envelopes of valid records, each newer than the one before
and the first newer than `last`, up to their end or, if torn, to where they break off. -/
inductive Reads (S : Stdlib) (limits : Limits) : Version → Bytes → Nat → Bool → Prop
  | done (last : Version) : Reads S limits last [] 0 false
  | torn (last : Version) {rest : Bytes} (hne : rest ≠ []) (h : BreaksOff limits rest) :
      Reads S limits last rest 0 true
  | entry {last : Version} {payload after : Bytes} {r : Record} {n : Nat} {torn : Bool}
      (hpayload : PayloadOf S limits payload r) (hnewer : last < r.version)
      (hafter : Reads S limits r.version after n torn) :
      Reads S limits last (envelope S payload ++ after) (n + 1) torn

/-- A length word of zero or beyond the limit stops the reading. -/
theorem Reads.lengthWord_bounds {last : Version} {n : Nat} {torn : Bool}
    (h : Reads S limits last rest n torn) (hmax : limits.maxRecordBytes ≤ maxUint32)
    (hlong : 4 ≤ rest.length) :
    lengthWord rest ≠ 0 ∧ lengthWord rest ≤ limits.maxRecordBytes := by
  cases h with
  | done => simp at hlong
  | torn _ _ hbreaks =>
    unfold BreaksOff at hbreaks
    omega
  | @entry _ payload after r m _ hpayload _ _ =>
    have hpos : 0 < payload.length := List.length_pos_iff.mpr hpayload.nonempty
    have hsize := hpayload.size
    rw [lengthWord_envelope (by omega)]
    omega

theorem Reads.scan (hmax : limits.maxRecordBytes ≤ maxUint32) {last : Version} {n : Nat}
    {torn : Bool} (h : Reads S limits last rest n torn) (before : Bytes)
    (hlast : log.last = last) :
    ∃ p : Parsed, Scan S limits (before ++ rest) before.length log p.validSize p.log ∧
      ScanEnd S limits (before ++ rest) p ∧
      p.log.records.length = log.records.length + n ∧ p.truncated = torn := by
  induction h generalizing before log with
  | done last =>
    exact ⟨⟨log, before.length, false⟩, .done _ _, .inl ⟨rfl, by simp⟩, rfl, rfl⟩
  | @torn last rest hne hbreaks =>
    refine ⟨⟨log, before.length, true⟩, .done _ _, .inr ⟨rfl, ?_, ?_⟩, rfl, rfl⟩
    · have hpos := List.length_pos_iff.mpr hne
      simp only [List.length_append]
      omega
    · rw [readEntry_front, readEntry_torn_iff]
      exact hbreaks
  | @entry last payload after r n _ hpayload hnewer _ ih =>
    subst hlast
    obtain ⟨p, hscan, hend, hcount, htorn⟩ :=
      ih (before ++ envelope S payload) (Segment.last_append log r hnewer)
    rw [List.append_assoc] at hscan hend
    have hread : readEntry S limits (before ++ (envelope S payload ++ after))
        before.length = .ok (some (r, (envelope S payload).length)) := by
      rw [readEntry_front, readEntry_whole_iff hmax]
      exact ⟨payload, after, rfl, hpayload, rfl⟩
    rw [List.length_append] at hscan
    refine ⟨p, .entry hread hnewer hscan, hend, ?_, htorn⟩
    rw [hcount, Segment.records_append, List.length_append, List.length_singleton]
    omega

theorem Scan.reads (hmax : limits.maxRecordBytes ≤ maxUint32) {data : Bytes} {o : Nat}
    {p : Parsed} (h : Scan S limits data o log p.validSize p.log)
    (hend : ScanEnd S limits data p) (hdata : data = before ++ rest) (ho : o = before.length) :
    ∃ n, Reads S limits log.last rest n p.truncated ∧
      p.log.records.length = log.records.length + n := by
  generalize hv : p.validSize = o' at h
  generalize hl : p.log = log' at h
  induction h generalizing before rest with
  | done offset log =>
    refine ⟨0, ?_, rfl⟩
    subst hdata ho
    rcases hend with ⟨htorn, hlen⟩ | ⟨htorn, hlen, hread⟩
    · rw [hv, List.length_append] at hlen
      rw [htorn, List.length_eq_zero_iff.mp (show rest.length = 0 by omega)]
      exact .done _
    · rw [hv, List.length_append] at hlen
      rw [hv, readEntry_front, readEntry_torn_iff] at hread
      rw [htorn]
      exact .torn _ (List.length_pos_iff.mp (by omega)) hread
  | @entry offset total offset' log log' record hread hnewer hrest ih =>
    subst hdata ho
    rw [readEntry_front, readEntry_whole_iff hmax] at hread
    obtain ⟨payload, after, rfl, hpayload, rfl⟩ := hread
    have hassoc : before ++ (envelope S payload ++ after) =
        (before ++ envelope S payload) ++ after := (List.append_assoc _ _ _).symm
    obtain ⟨n, hreads, hcount⟩ := ih hassoc (by rw [List.length_append]) hv hl
    rw [Segment.last_append] at hreads
    rw [Segment.records_append, List.length_append, List.length_singleton] at hcount
    exact ⟨n + 1, .entry hpayload hnewer hreads, by omega⟩

/-- A scan that goes on to its end passes through every place it can reach. -/
theorem Scan.suffix {data : Bytes} {o o₁ : Nat} {log₁ : JournalLog} {p : Parsed}
    (h : Scan S limits data o log o₁ log₁) (hfull : Scan S limits data o log p.validSize p.log)
    (hend : ScanEnd S limits data p) : Scan S limits data o₁ log₁ p.validSize p.log := by
  induction h with
  | done _ _ => exact hfull
  | @entry offset total offset' log log' record hread hnewer _ ih =>
    generalize hv : p.validSize = o' at hfull
    generalize hl : p.log = l' at hfull
    cases hfull with
    | done _ _ =>
      have hbounds := readEntry_bounds hread
      rcases hend with ⟨_, hlen⟩ | ⟨_, _, hnone⟩
      · rw [hv] at hlen
        omega
      · rw [hv, hread] at hnone
        cases hnone
    | entry hread' hnewer' hrest' =>
      rw [hread] at hread'
      cases hread'
      rw [← hv, ← hl] at hrest' ⊢
      exact ih hrest'

/-- Behind whole entries, a parse goes on as a scan of the rest. -/
theorem parseJournal_behind {front : Bytes} (h : Parses S limits front log) (rest : Bytes)
    {p : Parsed} :
    parseJournal S (front ++ rest) limits = .ok p ↔
      Scan S limits (front ++ rest) front.length log p.validSize p.log ∧
        ScanEnd S limits (front ++ rest) p := by
  obtain ⟨hlen, floor, hfloor, hscan⟩ := parses_iff.mp h
  have hwhole := hscan.append rest
  rw [parseJournal_eq_ok, List.take_append_of_le_length hlen]
  constructor
  · intro ⟨_, floor', hfloor', hfull, hend⟩
    rw [hfloor] at hfloor'
    cases hfloor'
    exact ⟨hwhole.suffix hfull hend, hend⟩
  · intro ⟨hrest, hend⟩
    refine ⟨?_, floor, hfloor, hwhole.trans hrest, hend⟩
    rw [List.length_append]
    omega

end

/-! ## A damaged journal -/

/-- A journal file in which the bytes of one entry have been replaced. -/
def damagedJournal (S : Stdlib) (floor : Version) (before : List Record) (damaged : Bytes)
    (after : List Record) : Bytes :=
  encodeJournalHeader S floor ++ entryBytes S before ++ (damaged ++ entryBytes S after)

section

variable {S : Stdlib} {limits : Limits} {before after : List Record} {hit : Record}
  {damaged : Bytes}

/-- The entries before a given one, as a log. -/
def prefixLog (log : JournalLog) {before rest : List Record}
    (h : log.records = before ++ rest) : JournalLog where
  floor := log.floor
  records := before
  ascending := by
    have hasc := log.ascending
    rw [h] at hasc
    exact (ascending_append.mp hasc).1
  above := by
    intro r hr
    exact log.above r (by rw [h]; simp [hr])

theorem length_damagedJournal (hrecords : log.records = before ++ hit :: after)
    (hlength : damaged.length = (journalEntry S hit).length) :
    (damagedJournal S log.floor before damaged after).length =
      (journalBytes S log).length := by
  rw [damagedJournal, journalBytes, hrecords, entryBytes_append]
  simp only [entryBytes, List.map_cons, List.flatten_cons, List.length_append, hlength]
  omega

theorem parses_prefixLog (hS : S.Lawful) (hlimits : limits.JournalReady)
    (hvalid : ∀ r ∈ log.records, r.Valid S limits) {rest : List Record}
    (hrecords : log.records = before ++ rest) :
    Parses S limits (journalBytes S (prefixLog log hrecords)) (prefixLog log hrecords) := by
  refine parses_journalBytes hS hlimits ?_
  intro r hr
  exact hvalid r (by rw [hrecords]; exact List.mem_append_left _ hr)

/-- Parsing a damaged journal is reading the bytes from the damaged entry on. -/
theorem parseJournal_damaged (hS : S.Lawful) (hlimits : limits.JournalReady)
    (hvalid : ∀ r ∈ log.records, r.Valid S limits)
    (hrecords : log.records = before ++ hit :: after) (damaged : Bytes)
    (Q : Nat → Bool → Prop) :
    (∃ p, parseJournal S (damagedJournal S log.floor before damaged after) limits = .ok p ∧
        Q p.log.records.length p.truncated) ↔
      ∃ count torn, Reads S limits (lastVersion Record.version log.floor before)
        (damaged ++ entryBytes S after) count torn ∧ Q (before.length + count) torn := by
  have hfront := parses_prefixLog hS hlimits hvalid hrecords
  have hdata : damagedJournal S log.floor before damaged after =
      journalBytes S (prefixLog log hrecords) ++ (damaged ++ entryBytes S after) := rfl
  have hlast : (prefixLog log hrecords).last =
      lastVersion Record.version log.floor before := rfl
  rw [hdata]
  constructor
  · intro ⟨p, hparse, hQ⟩
    obtain ⟨hscan, hend⟩ := (parseJournal_behind hfront _).mp hparse
    obtain ⟨count, hreads, hcount⟩ := hscan.reads hlimits.word hend rfl rfl
    rw [hcount] at hQ
    exact ⟨count, p.truncated, hreads, hQ⟩
  · intro ⟨count, torn, hreads, hQ⟩
    obtain ⟨p, hscan, hend, hcount, rfl⟩ := hreads.scan hlimits.word _ hlast
    exact ⟨p, (parseJournal_behind hfront _).mpr ⟨hscan, hend⟩, by rw [hcount]; exact hQ⟩

/-- The bytes from the damaged entry on pass for entries, and they break off or are no
more than the options admit. -/
def PassesFor (S : Stdlib) (n : JournalOptions) (floor : Version) (before : List Record)
    (damaged : Bytes) (after : List Record) : Prop :=
  ∃ count torn, Reads S n.limits (lastVersion Record.version floor before)
    (damaged ++ entryBytes S after) count torn ∧
      (torn = true ∨ (before.length + count : Nat) ≤ n.maxJournalEntries)

/-- Damage that spares the length word shows in the checksum. -/
def ChecksumDetects (S : Stdlib) (hit : Record) (damaged : Bytes) : Prop :=
  damaged.take 4 = (journalEntry S hit).take 4 →
    (S.checksum ((damaged.drop 4).take (S.record.marshal hit).length)).toNat ≠
      beDecode (damaged.drop (4 + (S.record.marshal hit).length))

/-- A damaged payload or checksum stops the reading at once. -/
theorem ChecksumDetects.not_reads (hS : S.Lawful) (hlimits : limits.JournalReady)
    (hvalid : hit.Valid S limits) (hlength : damaged.length = (journalEntry S hit).length)
    (hdetects : ChecksumDetects S hit damaged)
    (hword : damaged.take 4 = (journalEntry S hit).take 4) (last : Version) (ext : Bytes)
    (n : Nat) (torn : Bool) : ¬ Reads S limits last (damaged ++ ext) n torn := by
  have henc := hvalid.encodableIn hS hlimits
  have hlen : damaged.length = 4 + (S.record.marshal hit).length + 4 := by
    rw [hlength]
    exact length_envelope S _
  have hlead : lengthWord (damaged ++ ext) = (S.record.marshal hit).length := by
    have hfront : (damaged ++ ext).take 4 = (journalEntry S hit ++ []).take 4 := by
      rw [List.take_append_of_le_length (by omega), hword, List.append_nil]
    have heq : lengthWord (damaged ++ ext) = lengthWord (journalEntry S hit ++ []) := by
      unfold lengthWord
      rw [hfront]
    rw [heq]
    exact lengthWord_envelope henc.fits
  intro hreads
  generalize hrest : damaged ++ ext = rest at hreads hlead
  have hbound : 4 + lengthWord rest + 4 ≤ rest.length := by
    rw [hlead, ← hrest, List.length_append]
    omega
  cases hreads with
  | done =>
    simp at hbound
  | torn _ _ hbreaks =>
    unfold BreaksOff at hbreaks
    omega
  | @entry _ payload after r m _ hpayload _ _ =>
    have hsize : payload.length ≤ maxUint32 := by
      have := hpayload.size
      have := hlimits.word
      omega
    rw [lengthWord_envelope hsize] at hlead
    have hsplit := List.append_inj hrest (by rw [length_envelope, hlead, hlen])
    have hsum : damaged.drop (4 + (S.record.marshal hit).length) =
        beEncode 4 (S.checksum payload).toNat := by
      rw [hsplit.1, ← hlead, envelope, List.drop_left']
      rw [List.length_append, length_beEncode]
    have hbody : (damaged.drop 4).take (S.record.marshal hit).length = payload := by
      rw [hsplit.1, ← hlead, envelope, List.append_assoc, List.drop_left' (by simp),
        List.take_left' rfl]
    apply hdetects hword
    rw [hsum, hbody, beDecode_checksum]

/-- A journal whose entry before the last was damaged is refused and left as it is
exactly when the damage spares the length word, or the bytes from there on do not pass
for entries. -/
theorem interior_damage_fails_closed (hS : S.Lawful) {path : String}
    {options n : JournalOptions} (hpath : path ≠ "") (hnorm : options.normalized = .ok n)
    (log : JournalLog) (hvalid : ∀ r ∈ log.records, r.Valid S n.limits)
    (hsize : (journalBytes S log).length ≤ n.maxJournalBytes)
    {before after : List Record} {hit next : Record}
    (hrecords : log.records = before ++ hit :: next :: after) {damaged : Bytes}
    (hlength : damaged.length = (journalEntry S hit).length)
    (hdetects : ChecksumDetects S hit damaged) {fs : FS} {ino : Nat}
    (hdir : fs.dir (.file path) = some ino)
    (hcontent : fs.content ino = damagedJournal S log.floor before damaged (next :: after)) :
    (∃ e, openJournal S Oracle.none path options fs = .error e fs) ↔
      n.maxJournalBytes = maxInt64 ∨ damaged.take 4 = (journalEntry S hit).take 4 ∨
        ¬ PassesFor S n log.floor before damaged (next :: after) := by
  have hready := (JournalOptions.normalized_ready hnorm).1
  have hhit : hit.Valid S n.limits := hvalid hit (by rw [hrecords]; simp)
  have hbytes : (fs.content ino).length = (journalBytes S log).length := by
    rw [hcontent]
    exact length_damagedJournal hrecords hlength
  have hne : fs.content ino ≠ [] := by
    rw [← List.length_pos_iff, hbytes, length_journalBytes]
    unfold journalHeaderBytes
    omega
  have hpasses : (∃ p, parseJournal S (fs.content ino) n.limits = .ok p ∧
      (p.truncated = true ∨ p.log.records.length ≤ n.maxJournalEntries)) ↔
      PassesFor S n log.floor before damaged (next :: after) := by
    rw [hcontent]
    exact parseJournal_damaged hS hready hvalid hrecords damaged
      fun count torn => torn = true ∨ count ≤ n.maxJournalEntries
  have hmax := n.int64
  rw [openJournal_refuses_iff hpath hnorm hdir (by rw [hbytes]; exact hsize) hne, hpasses]
  constructor
  · intro h
    by_cases hlt : n.maxJournalBytes < maxInt64
    · exact .inr (.inr fun hpasses => h ⟨hlt, hpasses⟩)
    · exact .inl (le_antisymm hmax (not_lt.mp hlt))
  · rintro (heq | hword | hnot) ⟨hlt, hpasses⟩
    · omega
    · obtain ⟨count, torn, hreads, _⟩ := hpasses
      exact hdetects.not_reads hS hready hhit hlength hword _ _ _ _ hreads
    · exact hnot hpasses

end

namespace Sample

/-- The journal of two entries whose first entry has been replaced. -/
def damagedFS (damaged : Bytes) : FS :=
  (FS.empty.create (.file "journal")).extend 0
    (damagedJournal goStdlib Version.zero [] damaged [second])

/-- The first entry with another length word. -/
def longerFirst : Bytes := beEncode 4 4095 ++ (journalEntry goStdlib first).drop 4

/-- The first entry with a length word of zero. -/
def zeroFirst : Bytes := beEncode 4 0 ++ (journalEntry goStdlib first).drop 4

end Sample

open Sample in
/-- The second entry is intact and is lost. -/
theorem interior_damage_opens :
    (value? (openJournal goStdlib Oracle.none "journal" options
        (damagedFS longerFirst))).map (fun r => (r.1.records, r.2)) =
      some ([], ⟨true, Version.zero, Version.zero, 0⟩) ∧
    (finalState (openJournal goStdlib Oracle.none "journal" options
        (damagedFS longerFirst))).read (.file "journal") =
      some (encodeJournalHeader goStdlib Version.zero) := by
  decide +kernel

open Sample in
theorem interior_damage_fails_closed_sample :
    ∃ e, openJournal goStdlib Oracle.none "journal" options (damagedFS zeroFirst) =
      .error e (damagedFS zeroFirst) := by
  have hnorm : options.normalized = .ok normalOptions := rfl
  have hsize : ((journalBytes goStdlib twoEntries).length : Int) ≤
      normalOptions.maxJournalBytes := by decide +kernel
  have hrecords : twoEntries.records = [] ++ first :: second :: [] := rfl
  have hlength : zeroFirst.length = (journalEntry goStdlib first).length := by
    decide +kernel
  have hword : zeroFirst.take 4 ≠ (journalEntry goStdlib first).take 4 := by decide +kernel
  have hcontent : (damagedFS zeroFirst).content 0 =
      damagedJournal goStdlib twoEntries.floor [] zeroFirst [second] := by
    simp [damagedFS, FS.extend, FS.store, FS.create, FS.empty, twoEntries]
  have hopens := interior_damage_fails_closed goStdlib_lawful
    (show "journal" ≠ "" by decide) hnorm twoEntries (by decide +kernel) hsize hrecords
    hlength (fun h => absurd h hword) rfl hcontent
  refine hopens.mpr (.inr (.inr ?_))
  rintro ⟨count, torn, hreads, _⟩
  exact (hreads.lengthWord_bounds (by decide) (by decide +kernel)).1 (by decide +kernel)

end StreamHive.Lifecycle
