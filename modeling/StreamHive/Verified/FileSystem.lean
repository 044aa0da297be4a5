import StreamHive.Verified.ByteString

/-!
# A file system with inodes

A directory maps paths to inodes and inodes hold byte strings, so that a file
which has been replaced under its name is still there for whoever holds it
open.  Two facts are fields of the structure: inodes in the directory have been
allocated, and no inode has two names.

Programs that keep a file durable replace it through a temporary file.  The two
possible effects of such a replacement on the named files are `Untouched` and
`Replaced`; every specification above this module is stated with them, and
`read` is the only observation they need.
-/

namespace StreamHive.Verified.FileSystem

open StreamHive.Verified.ByteString

variable {fs fs' : FS} {name : String}

/-- A named file, or a temporary file with a generated name. -/
inductive Path where
  | file (name : String)
  | temp (n : Nat)
  deriving DecidableEq, Repr

/-- A directory of inodes. -/
structure FS where
  dir : Path → Option Nat
  content : Nat → Bytes
  fresh : Nat
  allocated : ∀ p i, dir p = some i → i < fresh
  unshared : ∀ p q i, dir p = some i → dir q = some i → p = q

namespace FS

/-- The file system with no files. -/
def empty : FS where
  dir := fun _ => none
  content := fun _ => []
  fresh := 0
  allocated := by simp
  unshared := by simp

/-- The bytes stored under a path. -/
def read (fs : FS) (p : Path) : Option Bytes := (fs.dir p).map fs.content

/-- Create an empty file under a path, in a new inode. -/
def create (fs : FS) (p : Path) : FS where
  dir := Function.update fs.dir p (some fs.fresh)
  content := Function.update fs.content fs.fresh []
  fresh := fs.fresh + 1
  allocated := by
    intro q i h
    by_cases hq : q = p
    · subst hq
      rw [Function.update_self] at h
      cases h
      omega
    · rw [Function.update_of_ne hq] at h
      have := fs.allocated q i h
      omega
  unshared := by
    intro q r i hq hr
    have hnew : ∀ s j, Function.update fs.dir p (some fs.fresh) s = some j →
        (s = p ∧ j = fs.fresh) ∨ (fs.dir s = some j ∧ j < fs.fresh) := by
      intro s j hs
      by_cases hsp : s = p
      · subst hsp
        rw [Function.update_self] at hs
        cases hs
        exact .inl ⟨rfl, rfl⟩
      · rw [Function.update_of_ne hsp] at hs
        exact .inr ⟨hs, fs.allocated s j hs⟩
    rcases hnew q i hq with ⟨hqp, hi⟩ | ⟨hq', hi⟩ <;>
      rcases hnew r i hr with ⟨hrp, hi'⟩ | ⟨hr', hi'⟩
    · rw [hqp, hrp]
    · omega
    · omega
    · exact fs.unshared q r i hq' hr'

/-- Replace the bytes of an inode. -/
def store (fs : FS) (i : Nat) (bytes : Bytes) : FS :=
  { fs with content := Function.update fs.content i bytes }

/-- Add bytes at the end of an inode. -/
def extend (fs : FS) (i : Nat) (bytes : Bytes) : FS :=
  fs.store i (fs.content i ++ bytes)

@[simp] theorem extend_nil (fs : FS) (i : Nat) : fs.extend i [] = fs := by
  unfold extend store
  simp

/-- Remove a name. -/
def unlink (fs : FS) (p : Path) : FS where
  dir := Function.update fs.dir p none
  content := fs.content
  fresh := fs.fresh
  allocated := by
    intro q i h
    by_cases hq : q = p
    · subst hq
      simp at h
    · rw [Function.update_of_ne hq] at h
      exact fs.allocated q i h
  unshared := by
    intro q r i hq hr
    by_cases hqp : q = p
    · subst hqp
      simp at hq
    · by_cases hrp : r = p
      · subst hrp
        simp at hr
      · rw [Function.update_of_ne hqp] at hq
        rw [Function.update_of_ne hrp] at hr
        exact fs.unshared q r i hq hr

/-- Give the inode named `old` the name `new`, which loses its previous
inode. -/
def rename (fs : FS) (old new : Path) : FS where
  dir := fun p =>
    if p = new then fs.dir old else if p = old then none else fs.dir p
  content := fs.content
  fresh := fs.fresh
  allocated := by
    intro q i h
    split at h
    · exact fs.allocated old i h
    · split at h
      · cases h
      · exact fs.allocated q i h
  unshared := by
    intro q r i hq hr
    split at hq <;> split at hr
    · next hq' hr' => rw [hq', hr']
    · next hq' hr' =>
        split at hr
        · cases hr
        · next hro => exact absurd (fs.unshared old r i hq hr).symm hro
    · next hq' hr' =>
        split at hq
        · cases hq
        · next hqo => exact absurd (fs.unshared old q i hr hq).symm hqo
    · split at hq
      · cases hq
      · split at hr
        · cases hr
        · exact fs.unshared q r i hq hr

/-! ## Effects on the named files -/

/-- Every named file is as before, and so is everything held open. -/
structure Untouched (fs fs' : FS) : Prop where
  dir : ∀ name, fs'.dir (.file name) = fs.dir (.file name)
  content : ∀ i < fs.fresh, fs'.content i = fs.content i
  fresh : fs.fresh ≤ fs'.fresh

/-- The file `name` is a new file holding `data`; every other named file is as
before, and so is everything held open. -/
structure Replaced (fs : FS) (name : String) (data : Bytes) (fs' : FS) : Prop where
  here : ∃ i, fs'.dir (.file name) = some i ∧ fs.fresh ≤ i ∧ fs'.content i = data
  dir : ∀ other, other ≠ name → fs'.dir (.file other) = fs.dir (.file other)
  content : ∀ i < fs.fresh, fs'.content i = fs.content i
  fresh : fs.fresh ≤ fs'.fresh

theorem Untouched.refl (fs : FS) : Untouched fs fs :=
  ⟨fun _ => rfl, fun _ _ => rfl, le_refl _⟩

theorem Untouched.read (h : Untouched fs fs') (name : String) :
    fs'.read (.file name) = fs.read (.file name) := by
  unfold FS.read
  rw [h.dir name]
  cases hd : fs.dir (.file name) with
  | none => rfl
  | some i =>
    simp only [Option.map_some]
    rw [h.content i (fs.allocated _ i hd)]

theorem Replaced.read {data : Bytes} (h : Replaced fs name data fs') :
    fs'.read (.file name) = some data := by
  obtain ⟨i, hi, _, hdata⟩ := h.here
  unfold FS.read
  rw [hi, Option.map_some, hdata]

theorem Replaced.trans_untouched {fs'' : FS} {data : Bytes} (h : Replaced fs name data fs')
    (h' : Untouched fs' fs'') : Replaced fs name data fs'' where
  here := by
    obtain ⟨i, hi, hfresh, hdata⟩ := h.here
    refine ⟨i, (h'.dir name).trans hi, hfresh, ?_⟩
    rw [h'.content i (fs'.allocated _ i hi), hdata]
  dir := fun other hne => (h'.dir other).trans (h.dir other hne)
  content := fun i hi =>
    (h'.content i (lt_of_lt_of_le hi h.fresh)).trans (h.content i hi)
  fresh := le_trans h.fresh h'.fresh

/-- No named file but `name` has changed, nor anything held open. -/
structure Framed (fs : FS) (name : String) (fs' : FS) : Prop where
  dir : ∀ other, other ≠ name → fs'.dir (.file other) = fs.dir (.file other)
  content : ∀ i < fs.fresh, fs'.content i = fs.content i
  fresh : fs.fresh ≤ fs'.fresh

theorem Untouched.framed (h : Untouched fs fs') (name : String) :
    Framed fs name fs' := ⟨fun other _ => h.dir other, h.content, h.fresh⟩

theorem Replaced.framed {data : Bytes} (h : Replaced fs name data fs') :
    Framed fs name fs' := ⟨h.dir, h.content, h.fresh⟩

theorem Framed.read_ne {other : String} (h : Framed fs name fs') (hne : other ≠ name) :
    fs'.read (.file other) = fs.read (.file other) := by
  unfold FS.read
  rw [h.dir other hne]
  cases hd : fs.dir (.file other) with
  | none => rfl
  | some i =>
    simp only [Option.map_some]
    rw [h.content i (fs.allocated _ i hd)]

theorem Replaced.read_ne {other : String} {data : Bytes} (h : Replaced fs name data fs')
    (hne : other ≠ name) : fs'.read (.file other) = fs.read (.file other) := h.framed.read_ne hne

theorem Framed.trans {fs'' : FS} (h : Framed fs name fs') (h' : Framed fs' name fs'') :
    Framed fs name fs'' where
  dir := fun other hne => (h'.dir other hne).trans (h.dir other hne)
  content := fun i hi =>
    (h'.content i (lt_of_lt_of_le hi h.fresh)).trans (h.content i hi)
  fresh := le_trans h.fresh h'.fresh

theorem read_store_ne {p q : Path} {i : Nat} (h : fs.dir p = some i) (hne : q ≠ p)
    (bytes : Bytes) : (fs.store i bytes).read q = fs.read q := by
  unfold read store
  cases hq : fs.dir q with
  | none => rfl
  | some j =>
    have hij : j ≠ i := by
      intro hji
      rw [hji] at hq
      exact hne (fs.unshared q p i hq h)
    simp [hij]

end FS

end StreamHive.Verified.FileSystem
