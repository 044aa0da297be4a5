import Mathlib.Data.List.Sort

/-!
# Maps whose values know their own keys

A table of records indexed by a key that each record carries is a map with an
invariant: what is stored under `k` has key `k`.  `KeyedMap` makes the
invariant a field, so a table that files a record under a foreign key cannot be
built.  Its canonical listing `values` is in key order.

The facts a replay argument needs are collected here:

* `get?_putAll_cases` — after storing a list, each key holds the last record of the
  list with that key, or what the table held before;
* `putAll_values` — a table is rebuilt from its listing;
* `putAll_perm` — storing records with distinct keys forgets only their
  order.
-/

namespace StreamHive.Verified

variable {K R : Type} {cmp : K → K → Ordering} [Std.TransCmp cmp]
  [Std.LawfulEqCmp cmp] {key : R → K}

/-- A map from keys to records in which every record is stored under its own
key. -/
structure KeyedMap (cmp : K → K → Ordering) [Std.TransCmp cmp]
    [Std.LawfulEqCmp cmp] (key : R → K) where
  entries : Std.ExtTreeMap K R cmp
  keyed : ∀ k r, entries[k]? = some r → key r = k

namespace KeyedMap

variable (m : KeyedMap cmp key)

/-- The record stored under a key. -/
def get? (k : K) : Option R := m.entries[k]?

/-- The table with no records. -/
def empty : KeyedMap cmp key where
  entries := ∅
  keyed := by
    intro k r h
    simp at h

/-- Store a record under its own key. -/
def put (r : R) : KeyedMap cmp key where
  entries := m.entries.insert (key r) r
  keyed := by
    intro k r' h
    rw [Std.ExtTreeMap.getElem?_insert] at h
    split at h
    · next heq =>
        cases h
        exact Std.LawfulEqCmp.eq_of_compare heq
    · exact m.keyed k r' h

/-- Store every record of a list, in order. -/
def putAll (rs : List R) : KeyedMap cmp key :=
  rs.foldl put m

/-- The records of the table in key order. -/
def values : List R := m.entries.toList.map Prod.snd

/-! ## Reading after writing -/

theorem ext_get? {m n : KeyedMap cmp key} (h : ∀ k, m.get? k = n.get? k) :
    m = n := by
  cases m with
  | mk me mk =>
    cases n with
    | mk ne nk =>
      have hentries : me = ne := Std.ExtTreeMap.ext_getElem? h
      subst hentries
      rfl

theorem key_of_get? {m : KeyedMap cmp key} {k : K} {r : R}
    (h : m.get? k = some r) : key r = k := m.keyed k r h

@[simp] theorem get?_empty (k : K) :
    (empty : KeyedMap cmp key).get? k = none := by
  simp [get?, empty]

theorem get?_put_self (r : R) :
    (m.put r).get? (key r) = some r := by
  simp [get?, put]

theorem get?_put_ne (r : R) {k : K} (h : key r ≠ k) :
    (m.put r).get? k = m.get? k := by
  simp only [get?, put, Std.ExtTreeMap.getElem?_insert]
  rw [if_neg]
  intro heq
  exact h (Std.LawfulEqCmp.eq_of_compare heq)

theorem putAll_append (rs ss : List R) :
    m.putAll (rs ++ ss) = (m.putAll rs).putAll ss := by
  simp [putAll]

@[simp] theorem putAll_nil : m.putAll [] = m := rfl

theorem putAll_cons (r : R) (rs : List R) :
    m.putAll (r :: rs) = (m.put r).putAll rs := rfl

theorem putAll_concat (rs : List R) (r : R) :
    m.putAll (rs ++ [r]) = (m.putAll rs).put r := by
  simp [putAll]

/-- A key that no record of the list carries keeps what it held. -/
theorem get?_putAll_of_notMem (rs : List R) (k : K)
    (h : ∀ r ∈ rs, key r ≠ k) : (m.putAll rs).get? k = m.get? k := by
  induction rs generalizing m with
  | nil => rfl
  | cons r rs ih =>
    rw [putAll_cons, ih (m.put r) fun r' hr' => h r' (by simp [hr'])]
    exact get?_put_ne m r (h r (by simp))

/-- What a key holds after a list is stored comes from the list or from the
table before it. -/
theorem get?_putAll_cases (rs : List R) (k : K) :
    (∃ pre r post, rs = pre ++ r :: post ∧ key r = k ∧
        (∀ r' ∈ post, key r' ≠ k) ∧ (m.putAll rs).get? k = some r) ∨
      ((∀ r ∈ rs, key r ≠ k) ∧ (m.putAll rs).get? k = m.get? k) := by
  induction rs generalizing m with
  | nil => exact .inr ⟨by simp, rfl⟩
  | cons r rs ih =>
    rcases ih (m.put r) with ⟨pre, r', post, hsplit, hkey, hpost, hget⟩ |
      ⟨hnone, hget⟩
    · exact .inl ⟨r :: pre, r', post, by rw [hsplit]; rfl, hkey, hpost, hget⟩
    · by_cases hk : key r = k
      · refine .inl ⟨[], r, rs, rfl, hk, hnone, ?_⟩
        rw [putAll_cons, hget, ← hk]
        exact get?_put_self m r
      · refine .inr ⟨?_, ?_⟩
        · intro r' hr'
          rcases List.mem_cons.mp hr' with rfl | hmem
          · exact hk
          · exact hnone r' hmem
        · rw [putAll_cons, hget]
          exact get?_put_ne m r hk

/-- A stored record with no later record of its key is what its key holds. -/
theorem get?_putAll_split (pre post : List R) (r : R) (hpost : ∀ r' ∈ post, key r' ≠ key r) :
    (m.putAll (pre ++ r :: post)).get? (key r) = some r := by
  rw [putAll_append, putAll_cons, get?_putAll_of_notMem _ _ _ hpost]
  exact get?_put_self _ r

/-! ## The listing -/

theorem mem_values {m : KeyedMap cmp key} {r : R} :
    r ∈ m.values ↔ m.get? (key r) = some r := by
  simp only [values, List.mem_map, Prod.exists,
    Std.ExtTreeMap.mem_toList_iff_getElem?_eq_some]
  constructor
  · rintro ⟨k, r', hget, rfl⟩
    rw [m.keyed k r' hget]
    exact hget
  · intro h
    exact ⟨key r, r, h, rfl⟩

/-- Strictly ascending in the key order. -/
def KeyAscending (cmp : K → K → Ordering) (key : R → K) (rs : List R) : Prop :=
  rs.Pairwise fun a b => cmp (key a) (key b) = .lt

theorem values_ascending :
    KeyAscending cmp key m.values := by
  unfold KeyAscending values
  rw [List.pairwise_map]
  refine List.Pairwise.imp_of_mem ?_
    (Std.ExtTreeMap.ordered_keys_toList (t := m.entries))
  intro a b ha hb hlt
  rw [m.keyed a.1 a.2 (Std.ExtTreeMap.mem_toList_iff_getElem?_eq_some.mp ha),
    m.keyed b.1 b.2 (Std.ExtTreeMap.mem_toList_iff_getElem?_eq_some.mp hb)]
  exact hlt

omit [Std.TransCmp cmp] in
theorem KeyAscending.key_ne {rs : List R} (h : KeyAscending cmp key rs) :
    rs.Pairwise fun a b => key a ≠ key b := by
  refine List.Pairwise.imp ?_ h
  intro a b hlt heq
  have : cmp (key a) (key b) = .eq := by
    rw [heq]
    exact Std.ReflCmp.compare_self
  rw [this] at hlt
  cases hlt

/-- Two strictly ascending lists with the same members are equal. -/
theorem KeyAscending.eq_of_mem_iff {rs ss : List R}
    (hr : KeyAscending cmp key rs) (hs : KeyAscending cmp key ss)
    (h : ∀ r, r ∈ rs ↔ r ∈ ss) : rs = ss := by
  have hnodup : ∀ {l : List R}, KeyAscending cmp key l → l.Nodup := by
    intro l hl
    exact hl.key_ne.imp fun hne heq => hne (congrArg key heq)
  have hperm : rs.Perm ss :=
    (List.perm_ext_iff_of_nodup (hnodup hr) (hnodup hs)).mpr h
  refine hperm.eq_of_pairwise ?_ hr hs
  intro a b _ _ hab hba
  have hgt : cmp (key b) (key a) = .gt := by
    rw [Std.OrientedCmp.gt_iff_lt]
    exact hab
  rw [hgt] at hba
  cases hba

/-- When keys are distinct, the table built from a list holds exactly the
members of the list. -/
theorem get?_putAll_empty_iff {rs : List R}
    (hne : rs.Pairwise fun a b => key a ≠ key b) (r : R) :
    ((empty : KeyedMap cmp key).putAll rs).get? (key r) = some r ↔ r ∈ rs := by
  constructor
  · intro h
    rcases get?_putAll_cases (empty : KeyedMap cmp key) rs (key r) with
      ⟨pre, r', post, hsplit, _, _, hget⟩ | ⟨_, hget⟩
    · rw [hget] at h
      cases h
      rw [hsplit]
      simp
    · rw [hget, get?_empty] at h
      cases h
  · intro hmem
    obtain ⟨pre, post, hsplit⟩ := List.append_of_mem hmem
    rw [hsplit]
    refine get?_putAll_split _ pre post r ?_
    intro r' hr' heq
    rw [hsplit, List.pairwise_append] at hne
    exact (List.pairwise_cons.mp hne.2.1).1 r' hr' heq.symm

theorem mem_values_putAll_empty {rs : List R}
    (hne : rs.Pairwise fun a b => key a ≠ key b) (r : R) :
    r ∈ ((empty : KeyedMap cmp key).putAll rs).values ↔ r ∈ rs := by
  rw [mem_values, get?_putAll_empty_iff hne]

/-- A table is rebuilt from its listing. -/
theorem putAll_values : empty.putAll m.values = m := by
  apply ext_get?
  intro k
  have hne := (values_ascending m).key_ne
  cases hm : m.get? k with
  | some r =>
    have hk := key_of_get? hm
    subst hk
    exact (get?_putAll_empty_iff hne r).mpr (mem_values.mpr hm)
  | none =>
    rw [get?_putAll_of_notMem, get?_empty]
    intro r hr hk
    rw [mem_values, hk, hm] at hr
    cases hr

/-- Storing records with distinct keys forgets only their order. -/
theorem putAll_perm {rs ss : List R} (h : rs.Perm ss)
    (hne : rs.Pairwise fun a b => key a ≠ key b) :
    (empty : KeyedMap cmp key).putAll rs = empty.putAll ss := by
  have hne' : ss.Pairwise fun a b => key a ≠ key b :=
    h.pairwise hne fun hab => Ne.symm hab
  rw [← putAll_values (empty.putAll rs), ← putAll_values (empty.putAll ss)]
  congr 1
  refine KeyAscending.eq_of_mem_iff (values_ascending _) (values_ascending _) ?_
  intro r
  rw [mem_values_putAll_empty hne, mem_values_putAll_empty hne', h.mem_iff]

end KeyedMap

end StreamHive.Verified
