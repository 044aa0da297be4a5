import StreamHive.Verified.KeyedMap
import StreamHive.Verified.Log

/-!
# The latest-entry view of a log

Replaying a log of versioned, keyed entries into an empty table leaves, under
each key, the entry of that key with the greatest version.  `view log` is that
table.  It depends on the log only through its entries, and it is what a listing
of an earlier view followed by the later entries rebuilds (`view_resume`).

Where entries arrive in no particular order, `Latest v seen m` says the same of
a table `m` and the set of entries seen so far: storing a newer entry and
dropping a superseded one both keep it, and it fixes the listing
(`Latest.values_eq`).
-/

namespace StreamHive.Verified

open Log

variable {K R V : Type} {cmp : K → K → Ordering} [Std.TransCmp cmp]
  [Std.LawfulEqCmp cmp] {key : R → K} [LinearOrder V] {v : R → V}

namespace KeyedMap

/-- The table that replaying a log leaves. -/
def view (cmp : K → K → Ordering) [Std.TransCmp cmp] [Std.LawfulEqCmp cmp]
    (key : R → K) (log : List R) : KeyedMap cmp key := empty.putAll log

@[simp] theorem view_nil : view cmp key ([] : List R) = empty := rfl

theorem view_concat (log : List R) (r : R) :
    view cmp key (log ++ [r]) = (view cmp key log).put r := putAll_concat _ _ _

theorem view_append (log ext : List R) :
    view cmp key (log ++ ext) = (view cmp key log).putAll ext := putAll_append _ _ _

/-- Every entry that the view holds is an entry of the log. -/
theorem mem_of_view {log : List R} {k : K} {r : R}
    (h : (view cmp key log).get? k = some r) : r ∈ log ∧ key r = k := by
  refine ⟨?_, key_of_get? h⟩
  rcases get?_putAll_cases (empty : KeyedMap cmp key) log k with
    ⟨pre, r', post, hsplit, _, _, hget⟩ | ⟨_, hget⟩
  · change (empty.putAll log).get? k = some r at h
    rw [hget] at h
    cases h
    rw [hsplit]
    simp
  · change (empty.putAll log).get? k = some r at h
    rw [hget, get?_empty] at h
    cases h

/-- A view is rebuilt from the listing of an earlier view and the entries
after it. -/
theorem view_resume (log ext : List R) :
    view cmp key ((view cmp key log).values ++ ext) = view cmp key (log ++ ext) := by
  rw [view_append, view_append]
  congr 1
  exact putAll_values (view cmp key log)

/-! ## Entries in any order -/

/-- The table holds only seen entries, and for every seen entry one of its key
that is at least as new. -/
structure Latest (v : R → V) (seen : Set R) (m : KeyedMap cmp key) : Prop where
  held : ∀ k r, m.get? k = some r → r ∈ seen
  covers : ∀ r ∈ seen, ∃ p, m.get? (key r) = some p ∧ v r ≤ v p

theorem Latest.nothing : Latest v ∅ (empty : KeyedMap cmp key) where
  held := by
    intro k r h
    simp at h
  covers := by
    intro r h
    exact absurd h (Set.notMem_empty r)

/-- Storing an entry newer than what its key holds. -/
theorem Latest.put {seen : Set R} {m : KeyedMap cmp key} (h : Latest v seen m)
    {r : R} (hnewer : ∀ p, m.get? (key r) = some p → v p < v r) :
    Latest v (insert r seen) (m.put r) where
  held := by
    intro k p hp
    by_cases hk : key r = k
    · rw [← hk, get?_put_self] at hp
      cases hp
      exact Set.mem_insert r seen
    · rw [get?_put_ne m r hk] at hp
      exact Set.mem_insert_of_mem r (h.held k p hp)
  covers := by
    intro t ht
    by_cases hk : key r = key t
    · rw [← hk, get?_put_self]
      rcases Set.mem_insert_iff.mp ht with rfl | hseen
      · exact ⟨t, rfl, le_refl _⟩
      · obtain ⟨p, hp, hle⟩ := h.covers t hseen
        rw [← hk] at hp
        exact ⟨r, rfl, le_of_lt (lt_of_le_of_lt hle (hnewer p hp))⟩
    · have hseen : t ∈ seen := by
        rcases Set.mem_insert_iff.mp ht with rfl | hseen
        · exact absurd rfl hk
        · exact hseen
      rw [get?_put_ne m r hk]
      exact h.covers t hseen

/-- Dropping an entry that the table supersedes. -/
theorem Latest.drop {seen : Set R} {m : KeyedMap cmp key} (h : Latest v seen m)
    {r p : R} (hp : m.get? (key r) = some p) (hle : v r ≤ v p) :
    Latest v (insert r seen) m where
  held := by
    intro k t ht
    exact Set.mem_insert_of_mem r (h.held k t ht)
  covers := by
    intro t ht
    rcases Set.mem_insert_iff.mp ht with rfl | hseen
    · exact ⟨p, hp, hle⟩
    · exact h.covers t hseen

/-- Where key and version determine an entry, the listing is the seen entries
with the greatest version of their key. -/
theorem Latest.mem_values {seen : Set R} {m : KeyedMap cmp key}
    (h : Latest v seen m)
    (hagree : ∀ a ∈ seen, ∀ b ∈ seen, key a = key b → v a = v b → a = b) (r : R) :
    r ∈ m.values ↔ r ∈ seen ∧ ∀ t ∈ seen, key t = key r → v t ≤ v r := by
  rw [KeyedMap.mem_values]
  constructor
  · intro hr
    refine ⟨h.held _ r hr, ?_⟩
    intro t ht hk
    obtain ⟨p, hp, hle⟩ := h.covers t ht
    rw [hk, hr] at hp
    cases hp
    exact hle
  · intro ⟨hr, hmax⟩
    obtain ⟨p, hp, hle⟩ := h.covers r hr
    have hkey : key p = key r := key_of_get? hp
    have hseen : p ∈ seen := h.held _ p hp
    have heq : r = p :=
      hagree r hr p hseen hkey.symm (le_antisymm hle (hmax p hseen hkey))
    rw [← heq] at hp
    exact hp

/-- Two tables that are latest for the same entries have the same listing. -/
theorem Latest.values_eq {seen : Set R} {m n : KeyedMap cmp key}
    (hm : Latest v seen m) (hn : Latest v seen n)
    (hagree : ∀ a ∈ seen, ∀ b ∈ seen, key a = key b → v a = v b → a = b) :
    m.values = n.values := by
  refine KeyAscending.eq_of_mem_iff (values_ascending m) (values_ascending n) ?_
  intro r
  rw [hm.mem_values hagree, hn.mem_values hagree]

/-! ## Listings -/

theorem values_view_subset {log : List R} {r : R}
    (h : r ∈ (view cmp key log).values) : r ∈ log :=
  (mem_of_view (mem_values.mp h)).1

end KeyedMap

end StreamHive.Verified
