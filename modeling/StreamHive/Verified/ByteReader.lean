import StreamHive.Verified.ByteString

/-!
# Buffered reading from a source that returns bytes in pieces

A source is the list of what its reads return; a read of nothing is an empty piece,
and the end follows the last one.  A reader keeps a buffer in front of the source and
reads past it when a request is not smaller than the buffer.  What a full read returns
depends only on the bytes that are left, not on the pieces they come in.

## Main results

* `run_readFull` — enough bytes are left: the read returns the first of them;
* `run_readFull_error` — too few are left: the read fails and leaves nothing;
* `run_readFull_prefix` — a read from a stream that may be cut.
-/

namespace StreamHive.Verified.ByteReader

open StreamHive.Verified.ByteString

variable {n : Nat} {data : Bytes} {r : Reader}

/-! ## Sources -/

/-- What the reads of a source return. -/
abbrev Source := List Bytes

namespace Source

/-- One read of at most `n` bytes; `none` at the end. -/
def pull (n : Nat) : Source → Option Bytes × Source
  | [] => (none, [])
  | piece :: rest =>
    if piece.length ≤ n then (some piece, rest)
    else (some (piece.take n), piece.drop n :: rest)

/-- The bytes and the reads that are left. -/
def work (source : Source) : Nat := (source.map fun piece => piece.length + 1).sum

theorem pull_cons (n : Nat) (piece : Bytes) (rest : Source) :
    pull n (piece :: rest) =
      if piece.length ≤ n then (some piece, rest)
      else (some (piece.take n), piece.drop n :: rest) := rfl

theorem pull_none {s s' : Source} (h : s.pull n = (none, s')) : s = [] ∧ s' = [] := by
  cases s with
  | nil => exact ⟨rfl, (Prod.mk.inj h).2.symm⟩
  | cons piece rest =>
    rw [pull_cons] at h
    split at h <;> cases (Prod.mk.inj h).1

/-- A read takes bytes from the front, and there is less to do after it. -/
theorem pull_some (hn : 0 < n) {s s' : Source} (h : s.pull n = (some data, s')) :
    s.flatten = data ++ s'.flatten ∧ data.length ≤ n ∧
      data.length + s'.work ≤ s.work ∧ s'.work < s.work := by
  cases s with
  | nil => cases h
  | cons piece rest =>
    rw [pull_cons] at h
    by_cases hfits : piece.length ≤ n
    · rw [if_pos hfits] at h
      cases h
      have hwork : work (data :: s') = data.length + 1 + s'.work := rfl
      exact ⟨rfl, hfits, by omega, by omega⟩
    · rw [if_neg hfits] at h
      cases h
      have hwork : work (piece :: rest) = piece.length + 1 + work rest := rfl
      have hwork' : work (piece.drop n :: rest) = (piece.drop n).length + 1 + work rest := rfl
      have htake : (piece.take n).length = n := by
        rw [List.length_take, min_eq_left (by omega)]
      have hdrop : (piece.drop n).length = piece.length - n := List.length_drop
      refine ⟨?_, by omega, by omega, by omega⟩
      rw [List.flatten_cons, List.flatten_cons, ← List.append_assoc, List.take_append_drop]

end Source

/-! ## Readers -/

/-- A buffer of some capacity in front of a source. -/
structure Reader where
  capacity : Nat
  buffered : Bytes
  source : Source

/-- Why a full read fails: at the end before the first byte, or after it. -/
inductive ReadError where
  | eof
  | unexpectedEOF
  deriving DecidableEq, Repr

namespace Reader

/-- The bytes that have not been read. -/
def unread (r : Reader) : Bytes := r.buffered ++ r.source.flatten

def work (r : Reader) : Nat := r.buffered.length + r.source.work

/-- One read of at most `n` bytes: from the buffer, or from the source when the buffer
is empty, past the buffer when the request is not smaller. -/
def read (n : Nat) (r : Reader) : Option Bytes × Reader :=
  if r.buffered = [] then
    if r.capacity ≤ n then
      match r.source.pull n with
      | (data, source) => (data, { r with source })
    else
      match r.source.pull r.capacity with
      | (none, source) => (none, { r with source })
      | (some data, source) =>
        (some (data.take n), { r with buffered := data.drop n, source })
  else
    (some (r.buffered.take n), { r with buffered := r.buffered.drop n })

theorem read_none {r' : Reader} (h : r.read n = (none, r')) : r.unread = [] ∧ r'.unread = [] := by
  unfold read at h
  by_cases hempty : r.buffered = []
  · rw [if_pos hempty] at h
    by_cases hpast : r.capacity ≤ n
    · rw [if_pos hpast] at h
      cases hread : r.source.pull n with
      | mk data source =>
        rw [hread] at h
        cases h
        obtain ⟨hnil, hnil'⟩ := Source.pull_none hread
        simp [unread, hempty, hnil, hnil']
    · rw [if_neg hpast] at h
      cases hread : r.source.pull r.capacity with
      | mk data source =>
        rw [hread] at h
        cases data with
        | none =>
          obtain ⟨hnil, hnil'⟩ := Source.pull_none hread
          cases h
          simp [unread, hempty, hnil, hnil']
        | some data => cases h
  · rw [if_neg hempty] at h
    cases h

/-- A read returns bytes from the front, and there is less to do after it. -/
theorem read_some (hn : 0 < n) {r' : Reader} (h : r.read n = (some data, r')) :
    r.unread = data ++ r'.unread ∧ data.length ≤ n ∧ r'.work < r.work := by
  unfold read at h
  by_cases hempty : r.buffered = []
  · rw [if_pos hempty] at h
    by_cases hpast : r.capacity ≤ n
    · rw [if_pos hpast] at h
      cases hread : r.source.pull n with
      | mk piece source =>
        rw [hread] at h
        cases h
        obtain ⟨hflat, hlen, _, hwork⟩ := Source.pull_some hn hread
        refine ⟨?_, hlen, ?_⟩
        · simpa [unread, hempty] using hflat
        · simp only [work, hempty, List.length_nil]
          omega
    · rw [if_neg hpast] at h
      cases hread : r.source.pull r.capacity with
      | mk piece source =>
        rw [hread] at h
        cases piece with
        | none => cases h
        | some piece =>
          have hroom : 0 < r.capacity := by omega
          obtain ⟨hflat, _, hwork, hless⟩ := Source.pull_some hroom hread
          cases h
          refine ⟨?_, List.length_take_le _ _, ?_⟩
          · simp only [unread, hempty, List.nil_append]
            rw [hflat, ← List.append_assoc, List.take_append_drop]
          · simp only [work, hempty, List.length_nil, List.length_drop]
            omega
  · rw [if_neg hempty] at h
    cases h
    have hpos : 0 < r.buffered.length := List.length_pos_iff.mpr hempty
    refine ⟨?_, List.length_take_le _ _, ?_⟩
    · simp only [unread]
      rw [← List.append_assoc, List.take_append_drop]
    · simp only [work, List.length_drop]
      omega

/-! ## Full reads -/

/-- Read until `need` more bytes have come after those in `acc`. -/
def fill (acc : Bytes) (need : Nat) (r : Reader) : EStateM.Result ReadError Reader Bytes :=
  if _hneed : need = 0 then
    .ok acc r
  else
    match _h : r.read need with
    | (none, r') => .error (if acc = [] then .eof else .unexpectedEOF) r'
    | (some data, r') => fill (acc ++ data) (need - data.length) r'
termination_by r.work
decreasing_by exact (read_some (Nat.pos_of_ne_zero _hneed) _h).2.2

/-- Read exactly `n` bytes. -/
def readFull {ε : Type} (fail : ReadError → ε) (n : Nat) : EStateM ε Reader Bytes := fun r =>
  match fill [] n r with
  | .ok data r' => .ok data r'
  | .error e r' => .error (fail e) r'

theorem fill_zero (acc : Bytes) (r : Reader) : fill acc 0 r = .ok acc r := by
  unfold fill
  rfl

theorem fill_none {acc : Bytes} {need : Nat} {r' : Reader} (hneed : need ≠ 0)
    (h : r.read need = (none, r')) :
    fill acc need r = .error (if acc = [] then .eof else .unexpectedEOF) r' := by
  rw [fill, dif_neg hneed]
  split
  next r₁ hr =>
    rw [h] at hr
    cases hr
    rfl
  next data r₁ hr =>
    rw [h] at hr
    cases hr

theorem fill_some {acc : Bytes} {need : Nat} {r' : Reader} (hneed : need ≠ 0)
    (h : r.read need = (some data, r')) :
    fill acc need r = fill (acc ++ data) (need - data.length) r' := by
  rw [fill, dif_neg hneed]
  split
  next r₁ hr =>
    rw [h] at hr
    cases hr
  next data₁ r₁ hr =>
    rw [h] at hr
    cases hr
    rfl

/-- The reads return what is missing, however it is split. -/
theorem fill_ok (acc : Bytes) (need : Nat) (r : Reader) (h : need ≤ r.unread.length) :
    ∃ r', fill acc need r = .ok (acc ++ r.unread.take need) r' ∧
      r'.unread = r.unread.drop need := by
  induction acc, need, r using fill.induct with
  | case1 acc r =>
    refine ⟨r, ?_, rfl⟩
    rw [fill_zero]
    simp
  | case2 acc need r hneed r' hread =>
    rw [(read_none hread).1, List.length_nil] at h
    omega
  | case3 acc need r hneed data r' hread ih =>
    obtain ⟨hunread, hlen, _⟩ := read_some (Nat.pos_of_ne_zero hneed) hread
    rw [hunread, List.length_append] at h
    obtain ⟨r'', hfill, hrest⟩ := ih (by omega)
    refine ⟨r'', ?_, ?_⟩
    · rw [fill_some hneed hread, hfill, hunread, List.append_assoc, List.take_append,
        List.take_of_length_le hlen]
    · rw [hrest, hunread, List.drop_append, List.drop_of_length_le hlen]
      rfl

/-- Too few bytes are left: they are read, and the end is reported. -/
theorem fill_error (acc : Bytes) (need : Nat) (r : Reader) (h : r.unread.length < need) :
    ∃ r', fill acc need r =
        .error (if acc ++ r.unread = [] then .eof else .unexpectedEOF) r' ∧
      r'.unread = [] := by
  induction acc, need, r using fill.induct with
  | case1 acc r => omega
  | case2 acc need r hneed r' hread =>
    obtain ⟨hnil, hnil'⟩ := read_none hread
    refine ⟨r', ?_, hnil'⟩
    rw [fill_none hneed hread, hnil, List.append_nil]
  | case3 acc need r hneed data r' hread ih =>
    obtain ⟨hunread, hlen, _⟩ := read_some (Nat.pos_of_ne_zero hneed) hread
    rw [hunread, List.length_append] at h
    obtain ⟨r'', hfill, hrest⟩ := ih (by omega)
    refine ⟨r'', ?_, hrest⟩
    rw [fill_some hneed hread, hfill, hunread, List.append_assoc]

variable {ε : Type} (fail : ReadError → ε)

theorem run_readFull (h : n ≤ r.unread.length) :
    ∃ r', readFull fail n r = .ok (r.unread.take n) r' ∧ r'.unread = r.unread.drop n := by
  obtain ⟨r', hfill, hrest⟩ := fill_ok [] n r h
  refine ⟨r', ?_, hrest⟩
  unfold readFull
  rw [hfill]
  rfl

theorem run_readFull_error (h : r.unread.length < n) : ∃ r', readFull fail n r =
        .error (fail (if r.unread = [] then .eof else .unexpectedEOF)) r' ∧
      r'.unread = [] := by
  obtain ⟨r', hfill, hrest⟩ := fill_error [] n r h
  refine ⟨r', ?_, hrest⟩
  unfold readFull
  rw [hfill]
  rfl

/-- The bytes at the front are read, and what follows them is left. -/
theorem run_readFull_append {rest : Bytes} (h : r.unread = data ++ rest)
    (hlen : data.length = n) : ∃ r', readFull fail n r = .ok data r' ∧ r'.unread = rest := by
  have hn : n ≤ r.unread.length := by
    rw [h, List.length_append]
    omega
  obtain ⟨r', hread, hrest⟩ := run_readFull fail hn
  rw [h, ← hlen, List.take_left] at hread
  rw [h, ← hlen, List.drop_left] at hrest
  exact ⟨r', by rw [← hlen]; exact hread, hrest⟩

/-- Of a stream that may be cut the bytes at the front are read, or it ends in them. -/
theorem run_readFull_prefix {tail : Bytes} (h : r.unread <+: data ++ tail)
    (hlen : data.length = n) :
    (∃ e r', readFull fail n r = .error (fail e) r' ∧ r'.unread = []) ∨
      ∃ r', readFull fail n r = .ok data r' ∧ r.unread = data ++ r'.unread ∧
        r'.unread <+: tail := by
  by_cases hshort : r.unread.length < n
  · obtain ⟨r', hread, hnil⟩ := run_readFull_error fail hshort
    exact .inl ⟨_, r', hread, hnil⟩
  · have hdata : data <+: r.unread :=
      List.prefix_of_prefix_length_le (List.prefix_append data tail) h (by omega)
    obtain ⟨rest, hrest⟩ := hdata
    obtain ⟨r', hread, hleft⟩ := run_readFull_append fail hrest.symm hlen
    refine .inr ⟨r', hread, by rw [hleft, hrest], ?_⟩
    rw [← hrest, List.prefix_append_right_inj] at h
    rw [hleft]
    exact h

end Reader

end StreamHive.Verified.ByteReader
