import StreamHive.Lifecycle.Store

/-!
# Envelopes and the journal file format

An envelope is a 32-bit big-endian length, the payload and the payload's
checksum.  A journal file is a 28-byte header that carries the floor, followed
by one envelope per record.  `parseJournal` scans it with explicit offsets and
checked slices; a slice out of range would be `Error.panic`.

The scan is described by `Scan data o log o' log'`: reading whole entries from
offset `o` leads to offset `o'` and extends the log accordingly.  A parse is a
scan followed by the end of the data or by a torn entry
(`parseJournal_eq_ok`).  That is the only fact about the loop that is used
afterwards.

## Main results

* `parseJournal_header`, `parseJournal_append_entry`,
  `parseJournal_append_torn` — a file made of a header, whole entries and
  possibly a proper part of one more entry parses to those entries;
* `parseJournal_take_validSize` — cutting a file at its valid size keeps its
  records.
-/

namespace StreamHive.Lifecycle

open Verified ByteString Log

variable {payload : Bytes}

variable {S : Stdlib} {limits : Limits} {data : Bytes} {offset : Nat}

/-! ## Envelopes -/

/-- `math.MaxUint32` -/
def maxUint32 : Nat := 2 ^ 32 - 1

variable (S)

/-- Length, payload and checksum. -/
def envelope (payload : Bytes) : Bytes :=
  beEncode 4 payload.length ++ payload ++ beEncode 4 (S.checksum payload).toNat

def encodeEnvelope (payload : Bytes) : Except Error Bytes :=
  if payload.length = 0 ∨ payload.length > maxUint32 then
    .error .recordTooLarge
  else
    .ok (envelope S payload)

def decodeEnvelope (data : Bytes) (offset max : Int) (corrupt checksum : Error) :
    Except Error (Bytes × Nat) :=
  if offset < 0 ∨ offset > data.length ∨ data.length - offset < 4 then
    .error corrupt
  else
    let start := offset.toNat
    match slice data start (start + 4) with
    | none => .error .panic
    | some word =>
      let length := beDecode word
      if length = 0 ∨ length > max then
        .error corrupt
      else if data.length - start < 4 + length + 4 then
        .error corrupt
      else
        match slice data (start + 4) (start + 4 + length),
          slice data (start + 4 + length) (start + (4 + length + 4)) with
        | some payload, some want =>
          if (S.checksum payload).toNat ≠ beDecode want then
            .error checksum
          else
            .ok (payload, start + (4 + length + 4))
        | _, _ => .error .panic

@[simp] theorem length_envelope (payload : Bytes) :
    (envelope S payload).length = 4 + payload.length + 4 := by
  simp only [envelope, List.length_append, length_beEncode]

variable {S}

theorem encodeEnvelope_eq_ok {bytes : Bytes} :
    encodeEnvelope S payload = .ok bytes ↔
      payload ≠ [] ∧ payload.length ≤ maxUint32 ∧ bytes = envelope S payload := by
  unfold encodeEnvelope
  split
  · next h =>
      constructor
      · intro h'
        cases h'
      · rintro ⟨hne, hle, _⟩
        rcases h with h | h
        · exact absurd (List.length_eq_zero_iff.mp h) hne
        · omega
  · next h =>
      rw [not_or] at h
      constructor
      · intro h'
        cases h'
        exact ⟨fun hnil => h.1 (by rw [hnil]; rfl), not_lt.mp h.2, rfl⟩
      · rintro ⟨_, _, rfl⟩
        rfl

variable (S)

/-- The three fields of an envelope that stands inside a longer byte string. -/
theorem slice_envelope (before payload after : Bytes) :
    slice (before ++ envelope S payload ++ after) before.length
        (before.length + 4) = some (beEncode 4 payload.length) ∧
      slice (before ++ envelope S payload ++ after) (before.length + 4)
        (before.length + 4 + payload.length) = some payload ∧
      slice (before ++ envelope S payload ++ after)
        (before.length + 4 + payload.length)
        (before.length + (4 + payload.length + 4)) =
          some (beEncode 4 (S.checksum payload).toNat) := by
  refine ⟨?_, ?_, ?_⟩
  · have h := slice_append before (beEncode 4 payload.length)
      (payload ++ beEncode 4 (S.checksum payload).toNat ++ after)
    simpa [envelope] using h
  · have h := slice_append (before ++ beEncode 4 payload.length) payload
      (beEncode 4 (S.checksum payload).toNat ++ after)
    simpa [envelope] using h
  · have h := slice_append (before ++ beEncode 4 payload.length ++ payload)
      (beEncode 4 (S.checksum payload).toNat) after
    simpa [envelope, Nat.add_assoc] using h

theorem beDecode_length (h : payload.length ≤ maxUint32) :
    beDecode (beEncode 4 payload.length) = payload.length := by
  apply beDecode_beEncode
  unfold maxUint32 at h
  omega

theorem beDecode_checksum (c : UInt32) : beDecode (beEncode 4 c.toNat) = c.toNat := by
  apply beDecode_beEncode
  have := c.toNat_lt
  omega

/-- An envelope inside a longer byte string decodes to its payload. -/
theorem decodeEnvelope_at (before after : Bytes) {max : Int} (hne : payload ≠ [])
    (hword : payload.length ≤ maxUint32) (hmax : payload.length ≤ max)
    (corrupt checksum : Error) :
    decodeEnvelope S (before ++ envelope S payload ++ after) before.length max corrupt checksum =
      .ok (payload, before.length + (envelope S payload).length) := by
  have hpos : 0 < payload.length := List.length_pos_iff.mpr hne
  obtain ⟨hlen, hpay, hsum⟩ := slice_envelope S before payload after
  have htotal : (before ++ envelope S payload ++ after).length =
      before.length + (4 + payload.length + 4) + after.length := by
    simp only [List.length_append, length_envelope]
  unfold decodeEnvelope
  rw [if_neg (by omega)]
  simp only [Int.toNat_natCast, hlen, beDecode_length hword]
  rw [if_neg (by omega), if_neg (by omega)]
  simp only [hpay, hsum, beDecode_checksum, ne_eq, not_true_eq_false, if_false,
    length_envelope]

/-- A whole file that is one envelope decodes to its payload. -/
theorem decodeEnvelope_envelope {max : Int} (hne : payload ≠ [])
    (hword : payload.length ≤ maxUint32) (hmax : payload.length ≤ max)
    (corrupt checksum : Error) : decodeEnvelope S (envelope S payload) 0 max corrupt checksum =
      .ok (payload, (envelope S payload).length) := by
  have h := decodeEnvelope_at S [] [] hne hword hmax corrupt checksum
  rwa [List.nil_append, List.append_nil, List.length_nil, Nat.zero_add] at h

/-! ## The journal header -/

def journalHeaderBytes : Nat := 28
def journalFormat : UInt8 := 1
def journalMagic : Bytes := ascii "SHLJ"

/-- The part of the header that its checksum covers. -/
def journalHeaderBody (floor : Version) : Bytes :=
  journalMagic ++ [journalFormat, 0, 0, 0] ++ beEncode 8 floor.epoch.toNat ++
    beEncode 8 floor.sequence.toNat

def encodeJournalHeader (floor : Version) : Bytes :=
  journalHeaderBody floor ++
    beEncode 4 (S.checksum (journalHeaderBody floor)).toNat

def decodeJournalHeader (header : Bytes) : Except Error Version :=
  if header.length ≠ journalHeaderBytes ∨ header.take 4 ≠ journalMagic ∨
      header[4]? ≠ some journalFormat then
    .error .journalCorrupt
  else if (S.checksum (header.take 24)).toNat ≠ beDecode (header.drop 24) then
    .error .journalChecksum
  else
    .ok ⟨UInt64.ofNat (beDecode ((header.take 16).drop 8)),
      UInt64.ofNat (beDecode ((header.take 24).drop 16))⟩

theorem length_journalHeaderBody (floor : Version) :
    (journalHeaderBody floor).length = 24 := by
  simp only [journalHeaderBody, List.length_append, length_beEncode]
  decide

@[simp] theorem length_encodeJournalHeader (floor : Version) :
    (encodeJournalHeader S floor).length = journalHeaderBytes := by
  simp [encodeJournalHeader, length_journalHeaderBody, journalHeaderBytes]

private theorem beDecode_uint64 (n : UInt64) :
    UInt64.ofNat (beDecode (beEncode 8 n.toNat)) = n := by
  rw [beDecode_beEncode 8 n.toNat (by have := n.toNat_lt; omega), UInt64.ofNat_toNat]

theorem decodeJournalHeader_encode (floor : Version) :
    decodeJournalHeader S (encodeJournalHeader S floor) = .ok floor := by
  have hlen := length_journalHeaderBody floor
  have htake : (encodeJournalHeader S floor).take 24 = journalHeaderBody floor := by
    unfold encodeJournalHeader
    rw [← hlen, List.take_left']
    rfl
  have hdrop : (encodeJournalHeader S floor).drop 24 =
      beEncode 4 (S.checksum (journalHeaderBody floor)).toNat := by
    unfold encodeJournalHeader
    rw [← hlen, List.drop_left']
    rfl
  have hepoch : ((journalHeaderBody floor).take 16).drop 8 =
      beEncode 8 floor.epoch.toNat := rfl
  have hsequence : ((journalHeaderBody floor).take 24).drop 16 =
      beEncode 8 floor.sequence.toNat := by
    rw [List.take_of_length_le (by rw [hlen])]
    rfl
  unfold decodeJournalHeader
  rw [if_neg, if_neg]
  · have htake16 : (encodeJournalHeader S floor).take 16 =
        (journalHeaderBody floor).take 16 := by
      rw [← htake, List.take_take]
      rfl
    rw [htake, htake16, hepoch]
    rw [show (journalHeaderBody floor).drop 16 =
      beEncode 8 floor.sequence.toNat from rfl]
    rw [beDecode_uint64, beDecode_uint64]
  · rw [htake, hdrop, beDecode_checksum]
    simp
  · rw [length_encodeJournalHeader]
    simp only [ne_eq, not_true_eq_false, false_or, not_or, not_not]
    exact ⟨rfl, rfl⟩

/-! ## Scanning entries -/

/-- The retained tail of a journal. -/
abbrev JournalLog := Segment Record.version

variable {log : JournalLog}

/-- The version order of `Version.compare`, as the journal checks it. -/
theorem lt_of_not_compare_le {v w : Version} (h : ¬ w.compare v ≤ 0) : v < w := by
  rw [Version.compare_le_zero] at h
  exact not_le.mp h

/-- One iteration of the parser: the entry at an offset with its total length,
or `none` when the rest of the data is a torn entry. -/
def readEntry (limits : Limits) (data : Bytes) (offset : Nat) :
    Except Error (Option (Record × Nat)) :=
  let remaining := data.length - offset
  if remaining < 4 then
    .ok none
  else
    match slice data offset (offset + 4) with
    | none => .error .panic
    | some word =>
      let length := beDecode word
      if length = 0 ∨ length > limits.maxRecordBytes then
        .error .journalCorrupt
      else
        let total := 4 + length + 4
        if remaining < total then
          .ok none
        else
          match slice data (offset + 4) (offset + 4 + length),
            slice data (offset + 4 + length) (offset + total) with
          | some payload, some want =>
            if (S.checksum payload).toNat ≠ beDecode want then
              .error .journalChecksum
            else
              match S.record.decode payload with
              | .one record =>
                match record.validate S limits with
                | .ok () => .ok (some (record, total))
                | .error e =>
                  .error (.detailed .journalCorrupt "record validation" e)
              | _ => .error (.detailed .journalCorrupt "record json" .json)
          | _, _ => .error .panic

/-- The result of parsing a journal file. -/
structure Parsed where
  log : JournalLog
  validSize : Nat
  truncated : Bool

/-- The parser's loop.  Every entry has at least nine bytes, so fuel beyond the
remaining length is never used up. -/
def parseEntries (limits : Limits) (data : Bytes) : Nat → Nat → JournalLog → Except Error Parsed
  | 0, _, _ => .error .panic
  | fuel + 1, offset, log =>
    if offset < data.length then
      match readEntry S limits data offset with
      | .error e => .error e
      | .ok none => .ok ⟨log, offset, true⟩
      | .ok (some (record, total)) =>
        if h : record.version.compare log.last ≤ 0 then
          .error .journalVersionOrder
        else
          parseEntries limits data fuel (offset + total)
            (log.append record (lt_of_not_compare_le h))
    else
      .ok ⟨log, offset, false⟩

def parseJournal (data : Bytes) (limits : Limits) : Except Error Parsed :=
  if data.length < journalHeaderBytes then
    .error .journalCorrupt
  else do
    let headerFloor ← decodeJournalHeader S (data.take journalHeaderBytes)
    parseEntries S limits data (data.length + 1) journalHeaderBytes
      (Segment.reset Record.version headerFloor)

/-! ### One entry -/

variable {S}

/-- A whole entry lies within the data. -/
theorem readEntry_bounds {total : Nat} {record : Record}
    (h : readEntry S limits data offset = .ok (some (record, total))) :
    0 < total ∧ offset + total ≤ data.length ∧ record.Valid S limits := by
  unfold readEntry at h
  simp only at h
  split at h
  · cases h
  · split at h
    · cases h
    · split at h
      · cases h
      · split at h
        · cases h
        next hrem =>
          split at h
          · split at h
            · cases h
            · split at h
              · split at h
                · next hvalid =>
                    cases h
                    exact ⟨by omega, by omega, hvalid⟩
                · cases h
              · cases h
          · cases h

private theorem slice_append_right {part : Bytes} {lo hi : Nat} (ext : Bytes)
    (h : slice data lo hi = some part) : slice (data ++ ext) lo hi = some part := by
  unfold slice at h ⊢
  split at h
  · next hin =>
      rw [if_pos ⟨hin.1, by rw [List.length_append]; omega⟩,
        List.take_append_of_le_length hin.2]
      exact h
  · cases h

/-- A whole entry is read in the same way when more data follows. -/
theorem readEntry_append {total : Nat} {record : Record} (ext : Bytes)
    (h : readEntry S limits data offset = .ok (some (record, total))) :
    readEntry S limits (data ++ ext) offset = .ok (some (record, total)) := by
  unfold readEntry at h ⊢
  simp only at h ⊢
  split at h
  · cases h
  next hrem =>
    rw [if_neg (by rw [List.length_append]; omega)]
    split at h
    · cases h
    next word hword =>
      rw [slice_append_right ext hword]
      simp only
      split at h
      · cases h
      next hlen =>
        rw [if_neg hlen]
        split at h
        · cases h
        next htotal =>
          rw [if_neg (by rw [List.length_append]; omega)]
          split at h
          · next payload want hpayload hwant =>
              rw [slice_append_right ext hpayload, slice_append_right ext hwant]
              exact h
          · cases h

/-- The bytes of one journal entry. -/
def journalEntry (S : Stdlib) (record : Record) : Bytes :=
  envelope S (S.record.marshal record)

/-- A valid record's encoding fits an envelope. -/
structure Record.Encodable (S : Stdlib) (r : Record) : Prop where
  nonempty : S.record.marshal r ≠ []
  fits : (S.record.marshal r).length ≤ maxUint32
  decodes : S.record.decode (S.record.marshal r) = .one r

theorem Record.Valid.encodable (hS : S.Lawful)
    (hmax : limits.normalized.maxRecordBytes ≤ maxUint32) {r : Record} (h : r.Valid S limits) :
    r.Encodable S where
  nonempty := hS.record.marshal_ne_nil r
  fits := by
    have := h.checked.size
    omega
  decodes := hS.record.decode_marshal r h.clean

theorem readEntry_entry {r : Record} (hvalid : r.Valid S limits) (henc : r.Encodable S)
    (hnorm : limits.normalized = limits) (before after : Bytes) :
    readEntry S limits (before ++ journalEntry S r ++ after) before.length =
      .ok (some (r, (journalEntry S r).length)) := by
  have hpos : 0 < (S.record.marshal r).length := List.length_pos_iff.mpr henc.nonempty
  have hsize := hvalid.checked.size
  rw [hnorm] at hsize
  obtain ⟨hlen, hpay, hsum⟩ := slice_envelope S before (S.record.marshal r) after
  unfold readEntry journalEntry
  simp only [List.length_append, length_envelope]
  rw [if_neg (by omega)]
  simp only [hlen, beDecode_length henc.fits]
  rw [if_neg (by omega), if_neg (by omega)]
  simp only [hpay, hsum, beDecode_checksum, ne_eq, not_true_eq_false, if_false,
    henc.decodes]
  rw [show r.validate S limits = .ok () from hvalid]

/-- A proper part of an entry is a torn tail. -/
theorem readEntry_torn {r : Record} (hvalid : r.Valid S limits) (henc : r.Encodable S)
    (hnorm : limits.normalized = limits) (before : Bytes) {n : Nat}
    (hn : n < (journalEntry S r).length) :
    readEntry S limits (before ++ (journalEntry S r).take n) before.length =
      .ok none := by
  have hpos : 0 < (S.record.marshal r).length := List.length_pos_iff.mpr henc.nonempty
  have hsize := hvalid.checked.size
  rw [hnorm] at hsize
  unfold journalEntry at hn ⊢
  rw [length_envelope] at hn
  have hlenTake : ((envelope S (S.record.marshal r)).take n).length = n := by
    rw [List.length_take, length_envelope]
    omega
  unfold readEntry
  simp only [List.length_append, hlenTake]
  by_cases hshort : n < 4
  · rw [if_pos (by omega)]
  · rw [if_neg (by omega)]
    have hword : slice (before ++ (envelope S (S.record.marshal r)).take n)
        before.length (before.length + 4) =
          some (beEncode 4 (S.record.marshal r).length) := by
      have hsplit : (envelope S (S.record.marshal r)).take n =
          beEncode 4 (S.record.marshal r).length ++
            ((S.record.marshal r ++
              beEncode 4 (S.checksum (S.record.marshal r)).toNat).take (n - 4)) := by
        unfold envelope
        rw [List.append_assoc, List.take_append, length_beEncode,
          List.take_of_length_le (by rw [length_beEncode]; omega)]
      rw [hsplit, ← List.append_assoc]
      have h := slice_append before (beEncode 4 (S.record.marshal r).length)
        ((S.record.marshal r ++
          beEncode 4 (S.checksum (S.record.marshal r)).toNat).take (n - 4))
      rwa [length_beEncode] at h
    simp only [hword, beDecode_length henc.fits]
    rw [if_neg (by omega), if_pos (by omega)]

/-! ### Scans -/

/-- Reading whole entries from one offset leads to another. -/
inductive Scan (S : Stdlib) (limits : Limits) (data : Bytes) :
    Nat → JournalLog → Nat → JournalLog → Prop
  | done (offset : Nat) (log : JournalLog) : Scan S limits data offset log offset log
  | entry {offset total offset' : Nat} {log log' : JournalLog} {record : Record}
      (hread : readEntry S limits data offset = .ok (some (record, total)))
      (hnewer : log.last < record.version)
      (hrest : Scan S limits data (offset + total) (log.append record hnewer)
        offset' log') :
      Scan S limits data offset log offset' log'

namespace Scan

variable {o o' o'' : Nat} {log' log'' : JournalLog}

theorem trans (h : Scan S limits data o log o' log')
    (h' : Scan S limits data o' log' o'' log'') :
    Scan S limits data o log o'' log'' := by
  induction h with
  | done _ _ => exact h'
  | entry hread hnewer _ ih => exact .entry hread hnewer (ih h')

theorem append (h : Scan S limits data o log o' log') (ext : Bytes) :
    Scan S limits (data ++ ext) o log o' log' := by
  induction h with
  | done offset log => exact .done offset log
  | entry hread hnewer _ ih => exact .entry (readEntry_append ext hread) hnewer ih

theorem le_length (h : Scan S limits data o log o' log') (ho : o ≤ data.length) :
    o' ≤ data.length := by
  induction h with
  | done _ _ => exact ho
  | entry hread _ _ ih => exact ih (readEntry_bounds hread).2.1

theorem offset_le (h : Scan S limits data o log o' log') : o ≤ o' := by
  induction h with
  | done _ _ => exact le_refl _
  | entry _ _ _ ih => omega

theorem valid (h : Scan S limits data o log o' log')
    (hlog : ∀ r ∈ log.records, r.Valid S limits) :
    ∀ r ∈ log'.records, r.Valid S limits := by
  induction h with
  | done _ _ => exact hlog
  | entry hread _ _ ih =>
    apply ih
    intro r hr
    rw [Segment.records_append, List.mem_append, List.mem_singleton] at hr
    rcases hr with hr | rfl
    · exact hlog r hr
    · exact (readEntry_bounds hread).2.2

end Scan

/-- Where a scan ends: at the end of the data, or before a torn entry. -/
def ScanEnd (S : Stdlib) (limits : Limits) (data : Bytes) (p : Parsed) : Prop :=
  (p.truncated = false ∧ data.length ≤ p.validSize) ∨
    (p.truncated = true ∧ p.validSize < data.length ∧
      readEntry S limits data p.validSize = .ok none)

theorem parseEntries_sound {fuel : Nat} {p : Parsed}
    (h : parseEntries S limits data fuel offset log = .ok p) :
    Scan S limits data offset log p.validSize p.log ∧ ScanEnd S limits data p := by
  induction fuel generalizing offset log with
  | zero => cases h
  | succ fuel ih =>
    unfold parseEntries at h
    split at h
    · next hlt =>
        split at h
        · cases h
        · next hread =>
            cases h
            exact ⟨.done offset log, .inr ⟨rfl, hlt, hread⟩⟩
        · next record total hread =>
            split at h
            · cases h
            · next hle =>
                obtain ⟨hscan, hend⟩ := ih h
                exact ⟨.entry hread (lt_of_not_compare_le hle) hscan, hend⟩
    · next hge =>
        cases h
        exact ⟨.done offset log, .inl ⟨rfl, not_lt.mp hge⟩⟩

theorem parseEntries_complete {p : Parsed}
    (hscan : Scan S limits data offset log p.validSize p.log) (hend : ScanEnd S limits data p)
    {fuel : Nat} (hfuel : data.length - offset < fuel) :
    parseEntries S limits data fuel offset log = .ok p := by
  generalize hv : p.validSize = offset' at hscan
  generalize hl : p.log = log' at hscan
  induction hscan generalizing fuel with
  | done offset log =>
    obtain ⟨fuel, rfl⟩ : ∃ k, fuel = k + 1 := ⟨fuel - 1, by omega⟩
    unfold parseEntries
    cases p with
    | mk plog psize ptruncated =>
      simp only at hv hl
      subst hv hl
      rcases hend with ⟨htrunc, hlen⟩ | ⟨htrunc, hlen, hread⟩
      · simp only at htrunc hlen
        rw [if_neg (not_lt.mpr hlen), htrunc]
      · simp only at htrunc hlen hread
        rw [if_pos hlen, hread, htrunc]
  | entry hread hnewer hrest ih =>
    obtain ⟨fuel, rfl⟩ : ∃ k, fuel = k + 1 := ⟨fuel - 1, by omega⟩
    have hbounds := readEntry_bounds hread
    unfold parseEntries
    rw [if_pos (by omega), hread]
    simp only
    rw [dif_neg (by rw [Version.compare_le_zero]; exact not_le.mpr hnewer)]
    exact ih (by omega) hv hl

/-! ## Parsing a journal file -/

/-- A parse is a header followed by a scan. -/
theorem parseJournal_eq_ok {p : Parsed} :
    parseJournal S data limits = .ok p ↔
      journalHeaderBytes ≤ data.length ∧
        ∃ floor, decodeJournalHeader S (data.take journalHeaderBytes) = .ok floor ∧
          Scan S limits data journalHeaderBytes (Segment.reset Record.version floor)
            p.validSize p.log ∧
          ScanEnd S limits data p := by
  unfold parseJournal
  by_cases hshort : data.length < journalHeaderBytes
  · rw [if_pos hshort]
    constructor
    · intro h
      cases h
    · rintro ⟨hlen, _⟩
      omega
  · rw [if_neg hshort]
    cases hhead : decodeJournalHeader S (data.take journalHeaderBytes) with
    | error e =>
      constructor
      · intro h
        cases h
      · rintro ⟨_, floor, hfloor, _⟩
        cases hfloor
    | ok floor =>
      change parseEntries S limits data (data.length + 1) journalHeaderBytes
        (Segment.reset Record.version floor) = .ok p ↔ _
      constructor
      · intro h
        exact ⟨not_lt.mp hshort, floor, rfl, parseEntries_sound h⟩
      · rintro ⟨_, floor', hfloor, hscan, hend⟩
        cases hfloor
        exact parseEntries_complete hscan hend (by omega)

/-- The whole file is a header and whole entries that hold this log. -/
def Parses (S : Stdlib) (limits : Limits) (data : Bytes) (log : JournalLog) : Prop :=
  parseJournal S data limits = .ok ⟨log, data.length, false⟩

theorem parses_iff :
    Parses S limits data log ↔
      journalHeaderBytes ≤ data.length ∧
        ∃ floor, decodeJournalHeader S (data.take journalHeaderBytes) = .ok floor ∧
          Scan S limits data journalHeaderBytes (Segment.reset Record.version floor)
            data.length log := by
  unfold Parses
  rw [parseJournal_eq_ok]
  constructor
  · rintro ⟨hlen, floor, hfloor, hscan, _⟩
    exact ⟨hlen, floor, hfloor, hscan⟩
  · rintro ⟨hlen, floor, hfloor, hscan⟩
    exact ⟨hlen, floor, hfloor, hscan, .inl ⟨rfl, le_refl _⟩⟩

/-- A fresh header parses to an empty log. -/
theorem parseJournal_header (S : Stdlib) (limits : Limits) (floor : Version) :
    Parses S limits (encodeJournalHeader S floor)
      (Segment.reset Record.version floor) := by
  rw [parses_iff]
  have hlen := length_encodeJournalHeader S floor
  refine ⟨by rw [hlen], floor, ?_, ?_⟩
  · rw [List.take_of_length_le (by rw [hlen]), decodeJournalHeader_encode]
  · rw [hlen]
    exact .done _ _

private theorem take_header_append (ext : Bytes) (h : journalHeaderBytes ≤ data.length) :
    (data ++ ext).take journalHeaderBytes = data.take journalHeaderBytes :=
  List.take_append_of_le_length h

/-- Appending a newer entry to a whole file appends its record. -/
theorem parseJournal_append_entry (h : Parses S limits data log) {r : Record}
    (hvalid : r.Valid S limits) (henc : r.Encodable S) (hnorm : limits.normalized = limits)
    (hnewer : log.last < r.version) :
    Parses S limits (data ++ journalEntry S r) (log.append r hnewer) := by
  rw [parses_iff] at h ⊢
  obtain ⟨hlen, floor, hfloor, hscan⟩ := h
  refine ⟨by rw [List.length_append]; omega, floor, ?_, ?_⟩
  · rw [take_header_append _ hlen]
    exact hfloor
  · refine (hscan.append (journalEntry S r)).trans ?_
    have hread := readEntry_entry hvalid henc hnorm data []
    rw [List.append_nil] at hread
    rw [List.length_append]
    exact .entry hread hnewer (.done _ _)

/-- Appending a proper, non-empty part of an entry leaves a torn tail. -/
theorem parseJournal_append_torn (h : Parses S limits data log) {r : Record}
    (hvalid : r.Valid S limits) (henc : r.Encodable S) (hnorm : limits.normalized = limits)
    {n : Nat} (hpos : 0 < n) (hn : n < (journalEntry S r).length) :
    parseJournal S (data ++ (journalEntry S r).take n) limits =
      .ok ⟨log, data.length, true⟩ := by
  rw [parses_iff] at h
  obtain ⟨hlen, floor, hfloor, hscan⟩ := h
  have htake : ((journalEntry S r).take n).length = n := by
    rw [List.length_take]
    omega
  rw [parseJournal_eq_ok]
  refine ⟨by rw [List.length_append]; omega, floor, ?_, hscan.append _, ?_⟩
  · rw [take_header_append _ hlen]
    exact hfloor
  · refine .inr ⟨rfl, ?_, readEntry_torn hvalid henc hnorm data hn⟩
    simp only [List.length_append, htake]
    omega

private theorem slice_take {part : Bytes} {lo hi n : Nat} (hn : hi ≤ n)
    (h : slice data lo hi = some part) : slice (data.take n) lo hi = some part := by
  unfold slice at h ⊢
  split at h
  · next hin =>
      rw [if_pos ⟨hin.1, by rw [List.length_take]; omega⟩, List.take_take,
        Nat.min_eq_left hn]
      exact h
  · cases h

private theorem readEntry_take {total n : Nat} {record : Record} (hn : offset + total ≤ n)
    (h : readEntry S limits data offset = .ok (some (record, total))) :
    readEntry S limits (data.take n) offset = .ok (some (record, total)) := by
  have hbounds := readEntry_bounds h
  have hlenTake : (data.take n).length = min n data.length := List.length_take
  unfold readEntry at h ⊢
  simp only at h ⊢
  split at h
  · cases h
  next hrem =>
    split at h
    · cases h
    next word hword =>
      split at h
      · cases h
      next hlen =>
        split at h
        · cases h
        next htotal =>
          split at h
          · next payload want hpayload hwant =>
              have htot : total = 4 + beDecode word + 4 := by
                split at h
                · cases h
                · split at h
                  · split at h
                    · cases h
                      rfl
                    · cases h
                  · cases h
              rw [if_neg (by omega), slice_take (by omega) hword]
              simp only
              rw [if_neg hlen, if_neg (by omega), slice_take (by omega) hpayload,
                slice_take (by omega) hwant]
              exact h
          · cases h

private theorem Scan.take {o o' : Nat} {log' : JournalLog}
    (h : Scan S limits data o log o' log') : Scan S limits (data.take o') o log o' log' := by
  induction h with
  | done offset log => exact .done offset log
  | entry hread hnewer hrest ih =>
    exact .entry (readEntry_take hrest.offset_le hread) hnewer ih

/-- Cutting a file at its valid size keeps exactly its records. -/
theorem parseJournal_take_validSize {p : Parsed} (h : parseJournal S data limits = .ok p) :
    Parses S limits (data.take p.validSize) p.log ∧
      p.validSize ≤ data.length := by
  obtain ⟨hlen, floor, hfloor, hscan, _⟩ := parseJournal_eq_ok.mp h
  have hle := hscan.le_length hlen
  have hge := hscan.offset_le
  have hlenTake : (data.take p.validSize).length = p.validSize := by
    rw [List.length_take]
    omega
  refine ⟨?_, hle⟩
  rw [parses_iff]
  refine ⟨by rw [hlenTake]; exact hge, floor, ?_, ?_⟩
  · rw [List.take_take, Nat.min_eq_left hge]
    exact hfloor
  · rw [hlenTake]
    exact hscan.take

/-- A parse that reports no torn tail has read the whole file. -/
theorem parses_of_not_truncated {p : Parsed} (h : parseJournal S data limits = .ok p)
    (htrunc : p.truncated = false) : Parses S limits data p.log ∧ p.validSize = data.length := by
  obtain ⟨_, _, _, _, hend⟩ := parseJournal_eq_ok.mp h
  obtain ⟨hparse, hle⟩ := parseJournal_take_validSize h
  have hge : data.length ≤ p.validSize := by
    rcases hend with ⟨_, hge⟩ | ⟨htrunc', _⟩
    · exact hge
    · rw [htrunc] at htrunc'
      cases htrunc'
  rw [List.take_of_length_le hge] at hparse
  exact ⟨hparse, by omega⟩

theorem Parses.valid (h : Parses S limits data log) : ∀ r ∈ log.records, r.Valid S limits := by
  obtain ⟨_, floor, _, hscan⟩ := parses_iff.mp h
  exact hscan.valid (by simp)

theorem Parses.header_le (h : Parses S limits data log) :
    journalHeaderBytes ≤ data.length := (parses_iff.mp h).1

end StreamHive.Lifecycle
