import StreamHive.Verified.ByteString

/-!
# Canonical JSON text

The text that a JSON encoder writes for strings, byte slices (base64), unsigned
numbers, arrays and objects with a fixed member order, and readers for exactly
that text.  A reader consumes a value from the front of its input and returns
the rest, and its one law is that it reads back what was written, whatever
follows.  The laws are simp lemmas, so the round trip of a composite format is
proved by rewriting with the laws of its parts.

Strings escape the quote, the backslash and the three characters `<`, `>` and
`&`, which are written as `\u00XX`.
-/

namespace StreamHive.Verified.JsonText

open StreamHive.Verified.ByteString

variable {rest : Bytes}

/-- A reader consumes a value from the front of its input. -/
abbrev Reader (α : Type) := Bytes → Option (α × Bytes)

variable {α β : Type}

/-- Remove a fixed text from the front of the input. -/
def expect (text : Bytes) (input : Bytes) : Option Bytes :=
  if text.isPrefixOf input then some (input.drop text.length) else none

@[simp] theorem expect_self (text : Bytes) : expect text text = some [] := by
  unfold expect
  rw [if_pos (by simp), List.drop_length]

@[simp] theorem expect_append (text rest : Bytes) :
    expect text (text ++ rest) = some rest := by
  unfold expect
  rw [if_pos (by simp), List.drop_left]

/-! ## Strings -/

/-- The hexadecimal digits of the escaped characters. -/
def hexDigit (n : Nat) : UInt8 :=
  if n < 10 then UInt8.ofNat (48 + n) else UInt8.ofNat (87 + n)

/-- The escaped form of one byte. -/
def escapeByte (b : UInt8) : Bytes :=
  if b = 34 then [92, 34]
  else if b = 92 then [92, 92]
  else if b = 60 ∨ b = 62 ∨ b = 38 then
    [92, 117, 48, 48, hexDigit (b.toNat / 16), hexDigit (b.toNat % 16)]
  else [b]

/-- The byte denoted by an escape, and the text after it. -/
def readEscape : Bytes → Option (UInt8 × Bytes)
  | 34 :: rest => some (34, rest)
  | 92 :: rest => some (92, rest)
  | 117 :: 48 :: 48 :: hi :: lo :: rest =>
    if hi = 51 ∧ lo = 99 then some (60, rest)
    else if hi = 51 ∧ lo = 101 then some (62, rest)
    else if hi = 50 ∧ lo = 54 then some (38, rest)
    else none
  | _ => none

/-- The bytes of a string up to its closing quote.  Every step consumes input,
so the length of the input is enough fuel. -/
def readText : Nat → Reader Bytes
  | 0, _ => none
  | _ + 1, [] => none
  | fuel + 1, b :: rest =>
    if b = 34 then some ([], rest)
    else if b = 92 then
      match readEscape rest with
      | none => none
      | some (c, rest') =>
        (readText fuel rest').map fun p => (c :: p.1, p.2)
    else
      (readText fuel rest).map fun p => (b :: p.1, p.2)

/-- A quoted string. -/
def writeString (s : Bytes) : Bytes := 34 :: (s.flatMap escapeByte ++ [34])

def readString : Reader Bytes
  | 34 :: rest => readText (rest.length + 1) rest
  | _ => none

theorem readText_escape (s : Bytes) : ∀ (fuel : Nat) (rest : Bytes),
    s.length < fuel →
      readText fuel (s.flatMap escapeByte ++ 34 :: rest) = some (s, rest) := by
  induction s with
  | nil =>
    intro fuel rest hfuel
    obtain ⟨fuel, rfl⟩ : ∃ k, fuel = k + 1 := ⟨fuel - 1, by simp at hfuel; omega⟩
    simp [readText]
  | cons b s ih =>
    intro fuel rest hfuel
    obtain ⟨fuel, rfl⟩ : ∃ k, fuel = k + 1 := ⟨fuel - 1, by simp at hfuel; omega⟩
    have hrest := ih fuel rest (by simp at hfuel; omega)
    rw [List.flatMap_cons, List.append_assoc]
    by_cases hquote : b = 34
    · subst hquote
      simp [escapeByte, readText, readEscape, hrest]
    by_cases hslash : b = 92
    · subst hslash
      simp [escapeByte, readText, readEscape, hrest]
    by_cases hhtml : b = 60 ∨ b = 62 ∨ b = 38
    · rcases hhtml with rfl | rfl | rfl <;>
        simp [escapeByte, hexDigit, readText, readEscape, hrest]
    · simp [escapeByte, readText, hquote, hslash, hhtml, hrest]

theorem length_le_escape (s : Bytes) : s.length ≤ (s.flatMap escapeByte).length := by
  induction s with
  | nil => simp
  | cons b s ih =>
    have hb : 0 < (escapeByte b).length := by
      unfold escapeByte
      split
      · simp
      · split
        · simp
        · split <;> simp
    rw [List.flatMap_cons, List.length_append, List.length_cons]
    omega

@[simp] theorem readString_write (s rest : Bytes) :
    readString (writeString s ++ rest) = some (s, rest) := by
  have hlen := length_le_escape s
  simp only [writeString, List.cons_append, List.append_assoc, List.nil_append,
    readString]
  apply readText_escape
  rw [List.length_append]
  omega

/-! ## Byte slices -/

/-- The base64 alphabet. -/
def base64Char (n : Nat) : UInt8 :=
  if n < 26 then UInt8.ofNat (65 + n)
  else if n < 52 then UInt8.ofNat (71 + n)
  else if n < 62 then UInt8.ofNat (n - 4)
  else if n = 62 then 43
  else 47

def base64Value (c : UInt8) : Option Nat :=
  if 65 ≤ c.toNat ∧ c.toNat ≤ 90 then some (c.toNat - 65)
  else if 97 ≤ c.toNat ∧ c.toNat ≤ 122 then some (c.toNat - 71)
  else if 48 ≤ c.toNat ∧ c.toNat ≤ 57 then some (c.toNat + 4)
  else if c = 43 then some 62
  else if c = 47 then some 63
  else none

/-- Base64 with padding. -/
def base64 : Bytes → Bytes
  | a :: b :: c :: rest =>
    base64Char (a.toNat / 4) :: base64Char (a.toNat % 4 * 16 + b.toNat / 16) ::
      base64Char (b.toNat % 16 * 4 + c.toNat / 64) :: base64Char (c.toNat % 64) ::
        base64 rest
  | [a, b] =>
    [base64Char (a.toNat / 4), base64Char (a.toNat % 4 * 16 + b.toNat / 16),
      base64Char (b.toNat % 16 * 4), 61]
  | [a] => [base64Char (a.toNat / 4), base64Char (a.toNat % 4 * 16), 61, 61]
  | [] => []

def unbase64 : Bytes → Option Bytes
  | [] => some []
  | p :: q :: r :: s :: rest => do
    let vp ← base64Value p
    let vq ← base64Value q
    let first := UInt8.ofNat (vp * 4 + vq / 16)
    if s = 61 then
      if rest ≠ [] then none
      else if r = 61 then some [first]
      else do
        let vr ← base64Value r
        some [first, UInt8.ofNat (vq % 16 * 16 + vr / 4)]
    else do
      let vr ← base64Value r
      let vs ← base64Value s
      let tail ← unbase64 rest
      some (first :: UInt8.ofNat (vq % 16 * 16 + vr / 4) ::
        UInt8.ofNat (vr % 4 * 64 + vs) :: tail)
  | _ => none

theorem base64Value_char : ∀ n < 64, base64Value (base64Char n) = some n := by
  decide

theorem base64Char_ne_pad : ∀ n < 64, base64Char n ≠ 61 := by
  decide

private theorem ofNat_eq {n : Nat} {b : UInt8} (h : n = b.toNat) :
    UInt8.ofNat n = b := by
  rw [h, UInt8.ofNat_toNat]

theorem unbase64_base64 (s : Bytes) : unbase64 (base64 s) = some s := by
  induction s using base64.induct with
  | case1 a b c rest ih =>
    have ha := a.toNat_lt
    have hb := b.toNat_lt
    have hc := c.toNat_lt
    simp only [base64, unbase64]
    rw [base64Value_char _ (by omega), base64Value_char _ (by omega),
      base64Value_char _ (by omega), base64Value_char _ (by omega), ih]
    simp only [Option.bind_eq_bind, Option.bind_some]
    rw [if_neg (base64Char_ne_pad (c.toNat % 64) (by omega))]
    simp only [Option.some.injEq, List.cons.injEq, and_true]
    exact ⟨ofNat_eq (by omega), ofNat_eq (by omega), ofNat_eq (by omega)⟩
  | case2 a b =>
    have ha := a.toNat_lt
    have hb := b.toNat_lt
    simp only [base64, unbase64]
    rw [base64Value_char _ (by omega), base64Value_char _ (by omega),
      base64Value_char _ (by omega)]
    simp only [Option.bind_eq_bind, Option.bind_some, if_true, ne_eq,
      not_true_eq_false, if_false, base64Char_ne_pad _ (show b.toNat % 16 * 4 < 64 by omega),
      Option.some.injEq, List.cons.injEq, and_true]
    exact ⟨ofNat_eq (by omega), ofNat_eq (by omega)⟩
  | case3 a =>
    have ha := a.toNat_lt
    simp only [base64, unbase64]
    rw [base64Value_char _ (by omega), base64Value_char _ (by omega)]
    simp only [Option.bind_eq_bind, Option.bind_some, if_true, ne_eq,
      not_true_eq_false, if_false, Option.some.injEq, List.cons.injEq, and_true]
    exact ofNat_eq (by omega)
  | case4 => rfl

/-- A byte slice is a string of base64 text. -/
def writeBytes (s : Bytes) : Bytes := writeString (base64 s)

def readBytes : Reader Bytes := fun input => do
  let (text, rest) ← readString input
  let s ← unbase64 text
  some (s, rest)

@[simp] theorem readBytes_write (s rest : Bytes) :
    readBytes (writeBytes s ++ rest) = some (s, rest) := by
  simp [readBytes, writeBytes, unbase64_base64]

/-! ## Unsigned numbers -/

/-- The decimal digits of a number below `10 ^ fuel`. -/
def digits : Nat → Nat → Bytes
  | 0, _ => []
  | fuel + 1, n =>
    if n < 10 then [UInt8.ofNat (48 + n)]
    else digits fuel (n / 10) ++ [UInt8.ofNat (48 + n % 10)]

theorem length_digits_le (fuel n : Nat) : (digits fuel n).length ≤ fuel := by
  induction fuel generalizing n with
  | zero => simp [digits]
  | succ fuel ih =>
    unfold digits
    split
    · simp
    · rw [List.length_append, List.length_singleton]
      have := ih (n / 10)
      omega

def isDigit (b : UInt8) : Bool := 48 ≤ b.toNat && b.toNat ≤ 57

/-- The number that a text of digits denotes. -/
def digitsValue (s : Bytes) : Nat := s.foldl (fun acc b => acc * 10 + (b.toNat - 48)) 0

def writeUInt64 (n : UInt64) : Bytes := digits 20 n.toNat

def readUInt64 : Reader UInt64 := fun input =>
  let text := input.takeWhile isDigit
  if text ≠ [] ∧ digitsValue text < 2 ^ 64 then
    some (UInt64.ofNat (digitsValue text), input.dropWhile isDigit)
  else
    none

private theorem toNat_digit {n : Nat} (h : n < 10) :
    (UInt8.ofNat (48 + n)).toNat = 48 + n := by
  rw [UInt8.toNat_ofNat']
  omega

theorem digits_isDigit (fuel n : Nat) : ∀ b ∈ digits fuel n, isDigit b = true := by
  have hdigit : ∀ k < 10, isDigit (UInt8.ofNat (48 + k)) = true := by decide
  induction fuel generalizing n with
  | zero => simp [digits]
  | succ fuel ih =>
    unfold digits
    split
    · next h => simpa using hdigit n h
    · intro b hb
      rcases List.mem_append.mp hb with hb | hb
      · exact ih (n / 10) b hb
      · rw [List.mem_singleton.mp hb]
        exact hdigit _ (Nat.mod_lt _ (by decide))

theorem digitsValue_digits (fuel n : Nat) (h : n < 10 ^ fuel) :
    digitsValue (digits fuel n) = n := by
  induction fuel generalizing n with
  | zero =>
    have : n = 0 := by simpa using h
    simp [digits, digitsValue, this]
  | succ fuel ih =>
    unfold digits
    split
    · next hn =>
        simp only [digitsValue, List.foldl_cons, List.foldl_nil, toNat_digit hn]
        omega
    · have hdiv : n / 10 < 10 ^ fuel := by
        apply Nat.div_lt_of_lt_mul
        rwa [← Nat.pow_succ']
      have hprev := ih (n / 10) hdiv
      unfold digitsValue at hprev ⊢
      rw [List.foldl_append, hprev]
      simp only [List.foldl_cons, List.foldl_nil,
        toNat_digit (Nat.mod_lt n (by decide))]
      omega

theorem digits_ne_nil (fuel n : Nat) : digits (fuel + 1) n ≠ [] := by
  unfold digits
  split <;> simp

/-- The text after a number does not continue it. -/
def EndsNumber (rest : Bytes) : Prop := ∀ b ∈ rest.head?, isDigit b = false

theorem takeWhile_digits {s : Bytes} (hs : ∀ b ∈ s, isDigit b = true) (hrest : EndsNumber rest) :
    (s ++ rest).takeWhile isDigit = s ∧ (s ++ rest).dropWhile isDigit = rest := by
  induction s with
  | nil =>
    cases rest with
    | nil => exact ⟨rfl, rfl⟩
    | cons b rest =>
      have hb := hrest b (by simp)
      simp [hb]
  | cons a s ih =>
    obtain ⟨htake, hdrop⟩ := ih fun b hb => hs b (by simp [hb])
    have ha := hs a (by simp)
    simp [ha, htake, hdrop]

theorem readUInt64_write (n : UInt64) (hrest : EndsNumber rest) :
    readUInt64 (writeUInt64 n ++ rest) = some (n, rest) := by
  have hlt := n.toNat_lt
  obtain ⟨htake, hdrop⟩ := takeWhile_digits (digits_isDigit 20 n.toNat) hrest
  have hvalue := digitsValue_digits 20 n.toNat (by omega)
  unfold readUInt64 writeUInt64
  simp only [htake, hdrop, hvalue]
  rw [if_pos ⟨digits_ne_nil 19 n.toNat, hlt⟩, UInt64.ofNat_toNat]

/-! ## Booleans, arrays and objects -/

def writeBool (b : Bool) : Bytes := if b then ascii "true" else ascii "false"

def readBool : Reader Bool := fun input =>
  match expect (ascii "true") input with
  | some rest => some (true, rest)
  | none => (expect (ascii "false") input).map fun rest => (false, rest)

@[simp] theorem readBool_write (b : Bool) (rest : Bytes) :
    readBool (writeBool b ++ rest) = some (b, rest) := by
  cases b with
  | true => simp [readBool, writeBool]
  | false =>
    have hother : expect (ascii "true") (ascii "false" ++ rest) = none := rfl
    simp [readBool, writeBool, hother]

/-- Elements separated by commas, up to the closing bracket. -/
def writeItems (close : UInt8) (write : α → Bytes) : List α → Bytes
  | [] => [close]
  | [a] => write a ++ [close]
  | a :: rest => write a ++ 44 :: writeItems close write rest

/-- The elements after the opening bracket, up to the closing one. -/
def readItems (close : UInt8) (read : Reader α) : Nat → Reader (List α)
  | 0, _ => none
  | fuel + 1, input =>
    match read input with
    | some (a, b :: rest) =>
      if b = close then some ([a], rest)
      else if b = 44 then
        (readItems close read fuel rest).map fun p => (a :: p.1, p.2)
      else none
    | _ => none

/-- A bracketed list; the closing bracket is two characters after the opening
one, for arrays as for objects. -/
def writeList (opening : UInt8) (write : α → Bytes) (as : List α) : Bytes :=
  opening :: writeItems (opening + 2) write as

def readList (opening : UInt8) (read : Reader α) : Reader (List α)
  | [] => none
  | b :: rest =>
    if b = opening then
      if rest.head? = some (opening + 2) then some ([], rest.drop 1)
      else readItems (opening + 2) read (rest.length + 1) rest
    else none

/-- The character that opens an array. -/
def bracket : UInt8 := 91

/-- The character that opens an object. -/
def brace : UInt8 := 123

/-- A reader that undoes a writer on values satisfying `P`, before any text that
does not continue a number, and never writes text that starts with a closing
bracket. -/
structure Reads (read : Reader α) (write : α → Bytes) (P : α → Prop) : Prop where
  read_write : ∀ a rest, P a → EndsNumber rest →
    read (write a ++ rest) = some (a, rest)
  starts : ∀ a, ∃ b rest, write a = b :: rest ∧ b ≠ bracket + 2 ∧ b ≠ brace + 2

theorem endsNumber_cons {b : UInt8} (h : isDigit b = false) : EndsNumber (b :: rest) := by
  intro c hc
  simp only [List.head?_cons, Option.mem_some_iff] at hc
  rw [← hc]
  exact h

section Lists

variable {read : Reader α} {write : α → Bytes} {P : α → Prop} {close : UInt8}

theorem readItems_write (h : Reads read write P) (hclose : isDigit close = false)
    (hcomma : close ≠ 44) (as : List α) (hne : as ≠ []) (hP : ∀ a ∈ as, P a) :
    ∀ (fuel : Nat) (rest : Bytes), as.length ≤ fuel →
      readItems close read fuel (writeItems close write as ++ rest) =
        some (as, rest) := by
  induction as with
  | nil => exact absurd rfl hne
  | cons a as ih =>
    intro fuel rest hfuel
    obtain ⟨fuel, rfl⟩ : ∃ k, fuel = k + 1 := ⟨fuel - 1, by simp at hfuel; omega⟩
    cases as with
    | nil =>
      have hread := h.read_write a (close :: rest) (hP a (by simp))
        (endsNumber_cons hclose)
      simp only [writeItems, List.append_assoc, List.cons_append, List.nil_append,
        readItems, hread, if_true]
    | cons b as =>
      have hread := h.read_write a (44 :: (writeItems close write (b :: as) ++ rest))
        (hP a (by simp)) (endsNumber_cons (by decide))
      have hrest := ih (by simp) (fun c hc => hP c (by simp [hc])) fuel rest
        (by simp at hfuel ⊢; omega)
      simp only [writeItems, List.append_assoc, List.cons_append, readItems, hread,
        if_neg hcomma.symm, if_true]
      rw [hrest]
      rfl

theorem length_le_writeItems (h : Reads read write P) (close : UInt8) (as : List α) :
    as.length ≤ (writeItems close write as).length := by
  induction as with
  | nil => simp
  | cons a as ih =>
    obtain ⟨b, rest, hwrite, _⟩ := h.starts a
    cases as with
    | nil => simp [writeItems, hwrite]
    | cons c as =>
      simp only [writeItems, hwrite, List.length_append, List.length_cons] at ih ⊢
      omega

theorem readList_write (h : Reads read write P) {opening : UInt8}
    (hopening : opening = bracket ∨ opening = brace) {as : List α}
    (hP : ∀ a ∈ as, P a) (rest : Bytes) :
    readList opening read (writeList opening write as ++ rest) = some (as, rest) := by
  have hclose : isDigit (opening + 2) = false := by
    rcases hopening with rfl | rfl <;> decide
  have hcomma : opening + 2 ≠ 44 := by
    rcases hopening with rfl | rfl <;> decide
  simp only [writeList, List.cons_append, readList, if_true]
  cases as with
  | nil => simp [writeItems]
  | cons a as =>
    obtain ⟨b, tail, hwrite, hne⟩ := h.starts a
    have hb : b ≠ opening + 2 := by
      rcases hopening with rfl | rfl
      · exact hne.1
      · exact hne.2
    have hhead : (writeItems (opening + 2) write (a :: as) ++ rest).head? = some b := by
      cases as with
      | nil | cons c as => simp [writeItems, hwrite]
    rw [hhead, if_neg (by simpa using hb)]
    apply readItems_write h hclose hcomma (a :: as) (by simp) hP
    have hlen := length_le_writeItems h (opening + 2) (a :: as)
    rw [List.length_append]
    omega

end Lists

/-! ## Members that may be absent -/

/-- A member that `omitempty` leaves out when its value is empty. -/
def omitEmpty (name : String) (write : List α → Bytes) (value : List α) : Bytes :=
  if value = [] then [] else ascii name ++ write value

/-- A member that may be absent. -/
def readMember (name : String) (read : Reader (List α)) : Reader (List α) :=
  fun input =>
    match expect (ascii name) input with
    | some rest => read rest
    | none => some ([], input)

/-- An absent member is read as empty when the text goes on with another one. -/
theorem readMember_omitEmpty {name : String} {read : Reader (List α)} {write : List α → Bytes}
    (value : List α) (hread : read (write value ++ rest) = some (value, rest))
    (hrest : expect (ascii name) rest = none) :
    readMember name read (omitEmpty name write value ++ rest) = some (value, rest) := by
  unfold readMember omitEmpty
  by_cases hvalue : value = []
  · rw [if_pos hvalue, List.nil_append, hrest, hvalue]
  · rw [if_neg hvalue, List.append_assoc, expect_append]
    exact hread

/-- The texts of the members do not start alike. -/
theorem expect_omitEmpty {name other : String} {write : List α → Bytes} (value : List α)
    (hrest : expect (ascii name) rest = none)
    (hother : ∀ tail, expect (ascii name) (ascii other ++ tail) = none) :
    expect (ascii name) (omitEmpty other write value ++ rest) = none := by
  unfold omitEmpty
  by_cases hvalue : value = []
  · rw [if_pos hvalue, List.nil_append, hrest]
  · rw [if_neg hvalue, List.append_assoc]
    exact hother _

theorem readsString : Reads readString writeString fun _ => True where
  read_write := fun s rest _ _ => readString_write s rest
  starts := fun _ => ⟨34, _, rfl, by decide, by decide⟩

theorem readsBytes : Reads readBytes writeBytes fun _ => True where
  read_write := fun s rest _ _ => readBytes_write s rest
  starts := fun _ => ⟨34, _, rfl, by decide, by decide⟩

end StreamHive.Verified.JsonText
