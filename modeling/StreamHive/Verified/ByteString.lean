import Mathlib.Data.List.Induction
import Mathlib.Tactic.Ring

/-!
# Byte strings, slices and big-endian words

Byte strings are lists of `UInt8`.  A checked slice `slice data lo hi` is
`none` exactly where an out-of-range slice expression would stop the program,
so a decoder written with it is total and its range errors are visible.

Fixed-width big-endian words are stated once for every width: `beEncode w n`
writes the low `w` bytes of `n`, most significant first, and `beDecode` reads a
byte string back.  The two are mutually inverse on words that fit
(`beDecode_beEncode`) and on strings of the right length
(`beEncode_beDecode`).
-/

namespace StreamHive.Verified.ByteString

/-- Byte strings. -/
abbrev Bytes := List UInt8

/-- The bytes of an ASCII string. -/
def ascii (s : String) : Bytes := s.toList.map fun c => UInt8.ofNat c.toNat

/-! ## Checked slices -/

/-- The slice `data[lo:hi]`, or `none` when the bounds are out of range. -/
def slice (data : Bytes) (lo hi : Nat) : Option Bytes :=
  if lo ≤ hi ∧ hi ≤ data.length then some ((data.take hi).drop lo) else none

theorem slice_append (before mid after : Bytes) :
    slice (before ++ mid ++ after) before.length
      (before.length + mid.length) = some mid := by
  have htake : (before ++ mid ++ after).take (before.length + mid.length) =
      before ++ mid := by
    rw [← List.length_append, List.take_left']
    rfl
  simp only [slice, htake, List.length_append, List.drop_left']
  rw [if_pos ⟨by omega, by omega⟩]

/-- A slice in range is the middle of a three-way split of the data. -/
theorem slice_eq_some {data part : Bytes} {lo hi : Nat}
    (h : slice data lo hi = some part) :
    lo ≤ hi ∧ hi ≤ data.length ∧ part.length = hi - lo ∧
      data = data.take lo ++ part ++ data.drop hi := by
  unfold slice at h
  split at h
  · next hin =>
      obtain ⟨hlo, hhi⟩ := hin
      have hpart : (data.take hi).drop lo = part := Option.some.inj h
      refine ⟨hlo, hhi, ?_, ?_⟩
      · rw [← hpart, List.length_drop, List.length_take, Nat.min_eq_left hhi]
      · have hlow : data.take lo = (data.take hi).take lo := by
          rw [List.take_take, Nat.min_eq_left hlo]
        rw [hlow, ← hpart, List.take_append_drop, List.take_append_drop]
  · cases h

/-- What follows the start of a slice is the slice and what follows its end. -/
theorem drop_of_slice {data part : Bytes} {lo hi : Nat} (h : slice data lo hi = some part) :
    data.drop lo = part ++ data.drop hi := by
  obtain ⟨hlo, hhi, _, hsplit⟩ := slice_eq_some h
  have htake : (data.take lo).length = lo := by
    rw [List.length_take]
    omega
  conv_lhs => rw [hsplit]
  rw [List.append_assoc, List.drop_left' htake]

theorem slice_isSome {data : Bytes} {lo hi : Nat} (hlo : lo ≤ hi)
    (hhi : hi ≤ data.length) : ∃ part, slice data lo hi = some part :=
  ⟨(data.take hi).drop lo, if_pos ⟨hlo, hhi⟩⟩

/-- A slice behind a known front is a slice of the rest. -/
theorem slice_add (before rest : Bytes) (lo hi : Nat) :
    slice (before ++ rest) (before.length + lo) (before.length + hi) = slice rest lo hi := by
  have htake : (before ++ rest).take (before.length + hi) = before ++ rest.take hi := by
    rw [List.take_append, List.take_of_length_le (by omega), Nat.add_sub_cancel_left]
  have hdrop : (before ++ rest.take hi).drop (before.length + lo) = (rest.take hi).drop lo := by
    rw [List.drop_append, List.drop_eq_nil_of_le (by omega), List.nil_append,
      Nat.add_sub_cancel_left]
  unfold slice
  rw [htake, hdrop, List.length_append]
  by_cases h : lo ≤ hi ∧ hi ≤ rest.length
  · rw [if_pos h, if_pos (by omega)]
  · rw [if_neg h, if_neg (by omega)]

/-! ## Big-endian words -/

/-- The low `w` bytes of `n`, most significant first. -/
def beEncode : Nat → Nat → Bytes
  | 0, _ => []
  | w + 1, n => beEncode w (n / 256) ++ [UInt8.ofNat (n % 256)]

/-- The number a big-endian byte string denotes. -/
def beDecode (bytes : Bytes) : Nat :=
  bytes.foldl (fun acc b => acc * 256 + b.toNat) 0

@[simp] theorem length_beEncode (w n : Nat) : (beEncode w n).length = w := by
  induction w generalizing n with
  | zero => rfl
  | succ w ih => simp [beEncode, ih]

theorem beDecode_concat (bytes : Bytes) (b : UInt8) :
    beDecode (bytes ++ [b]) = beDecode bytes * 256 + b.toNat := by
  simp [beDecode]

/-- Writing a word that fits and reading it back returns the word. -/
theorem beDecode_beEncode (w n : Nat) (h : n < 256 ^ w) :
    beDecode (beEncode w n) = n := by
  induction w generalizing n with
  | zero =>
    have hn : n = 0 := by simpa using h
    simp [beEncode, beDecode, hn]
  | succ w ih =>
    have hhigh : n / 256 < 256 ^ w := by
      apply Nat.div_lt_of_lt_mul
      rwa [← Nat.pow_succ']
    have hbyte : (UInt8.ofNat (n % 256)).toNat = n % 256 := by
      rw [UInt8.toNat_ofNat']
      omega
    rw [beEncode, beDecode_concat, ih _ hhigh, hbyte]
    omega

/-- Every byte string is the encoding of the number it denotes. -/
theorem beEncode_beDecode (bytes : Bytes) :
    beEncode bytes.length (beDecode bytes) = bytes := by
  induction bytes using List.reverseRecOn with
  | nil => rfl
  | append_singleton bytes b ih =>
    have hb : b.toNat < 256 := b.toNat_lt
    have hdiv : (beDecode bytes * 256 + b.toNat) / 256 = beDecode bytes := by
      omega
    have hmod : (beDecode bytes * 256 + b.toNat) % 256 = b.toNat := by
      omega
    rw [List.length_append, List.length_singleton, beDecode_concat, beEncode,
      hdiv, hmod, ih, UInt8.ofNat_toNat]

theorem beDecode_lt (bytes : Bytes) : beDecode bytes < 256 ^ bytes.length := by
  induction bytes using List.reverseRecOn with
  | nil => simp [beDecode]
  | append_singleton bytes b ih =>
    have hb : b.toNat < 256 := b.toNat_lt
    rw [beDecode_concat, List.length_append, List.length_singleton,
      Nat.pow_succ]
    omega

end StreamHive.Verified.ByteString
