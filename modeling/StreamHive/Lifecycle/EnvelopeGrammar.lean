import StreamHive.Lifecycle.GoStdlib

/-!
# The grammar of envelopes

`decodeEnvelope` reads its length and its offsets from data that nobody has checked.  It
accepts exactly the envelopes that `encodeEnvelope` writes, at any offset of any data, and
never slices out of range.  A concatenation of envelopes has therefore one reading, which
decoding one after the other finds.

## Main results

* `decodeEnvelope_cases` — an envelope stands at the offset, or decoding fails with one of
  the two errors it was given;
* `decodeEnvelope_eq_ok` — what is accepted;
* `decodeEnvelopes_from` — a sequence of envelopes;
* `envelope_grammar` — the three together.
-/

namespace StreamHive.Lifecycle

open Verified ByteString

variable {S : Stdlib} {max : Int} {corrupt checksum : Error}

/-! ## One envelope -/

/-- A word of four bytes is the encoding of what it denotes. -/
theorem eq_beEncode_of_length {word : Bytes} {n : Nat} (h : word.length = 4)
    (hn : beDecode word = n) : word = beEncode 4 n := by
  rw [← hn, ← h, beEncode_beDecode]

/-- Data decodes to a payload where its envelope stands, and otherwise to one of the two
errors. -/
theorem decodeEnvelope_cases (S : Stdlib) (data : Bytes) (offset max : Int)
    (corrupt checksum : Error) :
    (∃ e, decodeEnvelope S data offset max corrupt checksum = .error e ∧
        (e = corrupt ∨ e = checksum)) ∨
      ∃ before payload after, data = before ++ envelope S payload ++ after ∧
        offset = before.length ∧ payload ≠ [] ∧ payload.length ≤ max ∧
        payload.length ≤ maxUint32 := by
  unfold decodeEnvelope
  by_cases hstart : offset < 0 ∨ offset > data.length ∨ data.length - offset < 4
  · rw [if_pos hstart]
    exact .inl ⟨corrupt, rfl, .inl rfl⟩
  rw [if_neg hstart]
  obtain ⟨start, rfl⟩ : ∃ n : Nat, offset = n := ⟨offset.toNat, by omega⟩
  simp only [Int.toNat_natCast]
  obtain ⟨word, hword⟩ := slice_isSome (show start ≤ start + 4 by omega)
    (show start + 4 ≤ data.length by omega)
  rw [hword]
  dsimp only
  by_cases hlength : beDecode word = 0 ∨ (beDecode word : Int) > max
  · rw [if_pos hlength]
    exact .inl ⟨corrupt, rfl, .inl rfl⟩
  rw [if_neg hlength]
  by_cases htotal : data.length - start < 4 + beDecode word + 4
  · rw [if_pos htotal]
    exact .inl ⟨corrupt, rfl, .inl rfl⟩
  rw [if_neg htotal]
  obtain ⟨payload, hpayload⟩ := slice_isSome
    (show start + 4 ≤ start + 4 + beDecode word by omega)
    (show start + 4 + beDecode word ≤ data.length by omega)
  obtain ⟨want, hwant⟩ := slice_isSome
    (show start + 4 + beDecode word ≤ start + (4 + beDecode word + 4) by omega)
    (show start + (4 + beDecode word + 4) ≤ data.length by omega)
  rw [hpayload, hwant]
  dsimp only
  by_cases hsum : (S.checksum payload).toNat ≠ beDecode want
  · rw [if_pos hsum]
    exact .inl ⟨checksum, rfl, .inr rfl⟩
  obtain ⟨_, _, hwordLen, _⟩ := slice_eq_some hword
  obtain ⟨_, _, hpayloadLen, _⟩ := slice_eq_some hpayload
  obtain ⟨_, _, hwantLen, _⟩ := slice_eq_some hwant
  have hlen : payload.length = beDecode word := by omega
  have hfits := beDecode_lt word
  rw [show word.length = 4 by omega] at hfits
  refine .inr ⟨data.take start, payload, data.drop (start + (4 + beDecode word + 4)), ?_, ?_, ?_,
    ?_, ?_⟩
  · have hword' := eq_beEncode_of_length (show word.length = 4 by omega) hlen.symm
    have hwant' := eq_beEncode_of_length (show want.length = 4 by omega) (not_not.mp hsum).symm
    unfold envelope
    rw [← hword', ← hwant', List.append_assoc, List.append_assoc, List.append_assoc,
      ← drop_of_slice hwant, ← drop_of_slice hpayload, ← drop_of_slice hword,
      List.take_append_drop]
  · rw [List.length_take]
    omega
  · rintro rfl
    rw [List.length_nil] at hlen
    omega
  · omega
  · unfold maxUint32
    omega

/-- What is accepted at an offset is what `encodeEnvelope` writes. -/
theorem decodeEnvelope_eq_ok {data payload : Bytes} {offset : Int} {next : Nat} :
    decodeEnvelope S data offset max corrupt checksum = .ok (payload, next) ↔
      0 ≤ offset ∧ offset < next ∧ next ≤ data.length ∧ 0 < payload.length ∧
        payload.length ≤ max ∧ ∃ bytes, slice data offset.toNat next = some bytes ∧
          encodeEnvelope S payload = .ok bytes := by
  constructor
  · intro h
    rcases decodeEnvelope_cases S data offset max corrupt checksum with ⟨e, he, _⟩ |
      ⟨before, payload', after, rfl, rfl, hne, hmax, hword⟩
    · rw [h] at he
      cases he
    · rw [decodeEnvelope_at S before after hne hword hmax] at h
      cases h
      have hlen := length_envelope S payload
      have hpos := List.length_pos_iff.mpr hne
      rw [List.length_append, List.length_append]
      refine ⟨by omega, by omega, by omega, hpos, hmax, envelope S payload, ?_, ?_⟩
      · exact slice_append before (envelope S payload) after
      · exact encodeEnvelope_eq_ok.mpr ⟨hne, hword, rfl⟩
  · rintro ⟨hstart, hlt, hle, hpos, hmax, bytes, hslice, hencode⟩
    obtain ⟨hne, hword, rfl⟩ := encodeEnvelope_eq_ok.mp hencode
    obtain ⟨_, _, hlen, hsplit⟩ := slice_eq_some hslice
    have hbefore : (data.take offset.toNat).length = offset.toNat := by
      rw [List.length_take]
      omega
    have hdecode := decodeEnvelope_at S (data.take offset.toNat) (data.drop next) hne hword hmax
      corrupt checksum
    rw [← hsplit, hbefore, Int.toNat_of_nonneg hstart] at hdecode
    rw [hdecode]
    rw [show offset.toNat + (envelope S payload).length = next by omega]

/-! ## One after the other -/

/-- Decode one envelope after the other, up to the end of the data; returns the payloads
and the offset at which it stops. -/
def decodeEnvelopes (S : Stdlib) (data : Bytes) (max : Int) (corrupt checksum : Error) :
    Nat → Nat → Except Error (List Bytes × Nat)
  | 0, _ => .error .panic
  | fuel + 1, offset =>
    if offset = data.length then
      .ok ([], offset)
    else do
      let (payload, next) ← decodeEnvelope S data offset max corrupt checksum
      let (rest, stop) ← decodeEnvelopes S data max corrupt checksum fuel next
      .ok (payload :: rest, stop)

/-- The envelopes that are left decode to their payloads. -/
theorem decodeEnvelopes_from {payloads : List Bytes} (hwithin : ∀ payload ∈ payloads,
      payload ≠ [] ∧ payload.length ≤ max ∧ payload.length ≤ maxUint32) (before : Bytes)
    {fuel : Nat} (hfuel : payloads.length < fuel) :
    decodeEnvelopes S (before ++ (payloads.map (envelope S)).flatten) max corrupt checksum fuel
        before.length =
      .ok (payloads, (before ++ (payloads.map (envelope S)).flatten).length) := by
  induction payloads generalizing before fuel with
  | nil =>
    obtain ⟨fuel, rfl⟩ : ∃ n, fuel = n + 1 := ⟨fuel - 1, by omega⟩
    unfold decodeEnvelopes
    rw [List.map_nil, List.flatten_nil, List.append_nil, if_pos rfl]
  | cons payload rest ih =>
    obtain ⟨⟨hne, hmax, hword⟩, hrest⟩ := List.forall_mem_cons.mp hwithin
    rw [List.length_cons] at hfuel
    obtain ⟨fuel, rfl⟩ : ∃ n, fuel = n + 1 := ⟨fuel - 1, by omega⟩
    have hdecode := decodeEnvelope_at S before (rest.map (envelope S)).flatten hne hword hmax
      corrupt checksum
    have hnext := ih hrest (before ++ envelope S payload) (Nat.lt_of_succ_lt_succ hfuel)
    have hlen := length_envelope S payload
    unfold decodeEnvelopes
    rw [List.map_cons, List.flatten_cons, ← List.append_assoc, if_neg, hdecode]
    · rw [List.length_append] at hnext
      show (do
        let (rest', stop) ← decodeEnvelopes S _ max corrupt checksum fuel _
        .ok (payload :: rest', stop)) = _
      rw [hnext]
      rfl
    · rw [List.length_append, List.length_append]
      omega

theorem mapM_encodeEnvelope (S : Stdlib) {payloads : List Bytes}
    (hwithin : ∀ payload ∈ payloads, payload ≠ [] ∧ payload.length ≤ maxUint32) :
    payloads.mapM (encodeEnvelope S) = .ok (payloads.map (envelope S)) := by
  induction payloads with
  | nil => rfl
  | cons payload rest ih =>
    obtain ⟨⟨hne, hword⟩, hrest⟩ := List.forall_mem_cons.mp hwithin
    rw [List.mapM_cons, encodeEnvelope_eq_ok.mpr ⟨hne, hword, rfl⟩, ih hrest]
    rfl

/-- Decoding accepts exactly the envelopes that are written for payloads within the bound,
at any offset; it fails only with the errors it was given, so no slice is out of range; and
it reads a concatenation of envelopes back to its end. -/
theorem envelope_grammar (S : Stdlib) {max : Int} (hmax : max < 2 ^ 32)
    (corrupt checksum : Error) :
    (∀ (data : Bytes) (offset : Int) (payload : Bytes) (next : Nat),
      decodeEnvelope S data offset max corrupt checksum = .ok (payload, next) ↔
        0 ≤ offset ∧ offset < next ∧ next ≤ data.length ∧ 0 < payload.length ∧
          payload.length ≤ max ∧ ∃ bytes, slice data offset.toNat next = some bytes ∧
            encodeEnvelope S payload = .ok bytes) ∧
    (∀ (data : Bytes) (offset : Int) (e : Error),
      decodeEnvelope S data offset max corrupt checksum = .error e →
        e = corrupt ∨ e = checksum) ∧
    ∀ payloads : List Bytes,
      (∀ payload ∈ payloads, 0 < payload.length ∧ payload.length ≤ max) →
      ∃ envelopes, payloads.mapM (encodeEnvelope S) = .ok envelopes ∧
        ∀ fuel, payloads.length < fuel →
          decodeEnvelopes S envelopes.flatten max corrupt checksum fuel 0 =
            .ok (payloads, envelopes.flatten.length) := by
  refine ⟨fun _ _ _ _ => decodeEnvelope_eq_ok, ?_, ?_⟩
  · intro data offset e he
    rcases decodeEnvelope_cases S data offset max corrupt checksum with ⟨e', he', hcause⟩ |
      ⟨before, payload, after, rfl, rfl, hne, hlen, hword⟩
    · rw [he] at he'
      cases he'
      exact hcause
    · rw [decodeEnvelope_at S before after hne hword hlen] at he
      cases he
  · intro payloads hwithin
    have hall : ∀ payload ∈ payloads,
        payload ≠ [] ∧ payload.length ≤ max ∧ payload.length ≤ maxUint32 := by
      intro payload hmem
      obtain ⟨hpos, hlen⟩ := hwithin payload hmem
      refine ⟨List.length_pos_iff.mp hpos, hlen, ?_⟩
      unfold maxUint32
      omega
    refine ⟨payloads.map (envelope S), ?_, fun fuel hfuel => ?_⟩
    · exact mapM_encodeEnvelope S fun payload hmem =>
        ⟨(hall payload hmem).1, (hall payload hmem).2.2⟩
    · exact decodeEnvelopes_from hall [] hfuel

theorem envelope_grammar_sample :
    ∃ envelopes, [[1], [2, 3]].mapM (encodeEnvelope goStdlib) = .ok envelopes ∧
      ∀ fuel, 2 < fuel →
        decodeEnvelopes goStdlib envelopes.flatten 16 .journalCorrupt .journalChecksum fuel 0 =
          .ok ([[1], [2, 3]], envelopes.flatten.length) :=
  (envelope_grammar goStdlib (by decide) .journalCorrupt .journalChecksum).2.2 [[1], [2, 3]]
    (by decide)

end StreamHive.Lifecycle
