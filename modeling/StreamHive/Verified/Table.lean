import Mathlib.Data.Finset.Card
import Mathlib.Algebra.Order.BigOperators.Group.List
import Mathlib.Algebra.Order.Ring.Nat

/-!
# Finite tables

Lookup in an ordered map after an insertion and a removal, for keys that are compared by
equality, and bounds for the number of entries and for sums over them.

## Main results

* `getElem?_insert_of_lawful`, `getElem?_erase_of_lawful` — one entry at a time;
* `size_insert_of_notMem`, `size_erase_of_mem` — the number of entries;
* `size_le_card`, `sum_values_le` — bounds from the keys and from each entry.
-/

namespace StreamHive.Verified.Table

open Std (ExtTreeMap TransCmp LawfulEqCmp)

variable {α β : Type} {cmp : α → α → Ordering} [TransCmp cmp] {m : ExtTreeMap α β cmp} {k : α}

theorem size_insert_of_notMem (h : k ∉ m) (v : β) : (m.insert k v).size = m.size + 1 := by
  rw [ExtTreeMap.size_insert, if_neg (by simpa using h)]

theorem size_pos_of_mem [LawfulEqCmp cmp] (h : k ∈ m) : 0 < m.size := by
  rw [← ExtTreeMap.length_keys]
  exact List.length_pos_of_mem (ExtTreeMap.mem_keys.mpr h)

theorem size_erase_of_mem [LawfulEqCmp cmp] (h : k ∈ m) : (m.erase k).size + 1 = m.size := by
  have hpos := size_pos_of_mem h
  rw [ExtTreeMap.size_erase, if_pos (by simpa using h)]
  omega

theorem mem_iff_exists : k ∈ m ↔ ∃ v, m[k]? = some v := by
  rw [ExtTreeMap.mem_iff_isSome_getElem?, Option.isSome_iff_exists]

theorem notMem_of_none (h : m[k]? = none) : k ∉ m := by
  rw [mem_iff_exists, h]
  rintro ⟨_, hv⟩
  cases hv

theorem keys_nodup [Std.ReflCmp cmp] : m.keys.Nodup := by
  refine (ExtTreeMap.distinct_keys (t := m)).imp ?_
  intro a b hne heq
  rw [heq] at hne
  exact hne Std.ReflCmp.compare_self

/-- A map has no more entries than there are keys to choose from. -/
theorem size_le_card [LawfulEqCmp cmp] [DecidableEq α] {keys : Finset α}
    (h : ∀ k ∈ m, k ∈ keys) : m.size ≤ keys.card := by
  rw [← ExtTreeMap.length_keys, ← List.toFinset_card_of_nodup keys_nodup]
  refine Finset.card_le_card fun k hk => ?_
  exact h k (ExtTreeMap.mem_keys.mp (List.mem_toFinset.mp hk))

section Lookup

variable [LawfulEqCmp cmp] [DecidableEq α]

theorem getElem?_insert_of_lawful (m : ExtTreeMap α β cmp) (k : α) (v : β) (a : α) :
    (m.insert k v)[a]? = if a = k then some v else m[a]? := by
  rw [ExtTreeMap.getElem?_insert]
  by_cases h : a = k
  · have hself : cmp k k = .eq := Std.ReflCmp.compare_self
    rw [if_pos h, h, if_pos hself]
  · rw [if_neg h, if_neg fun heq => h (LawfulEqCmp.eq_of_compare heq).symm]

theorem getElem?_erase_of_lawful (m : ExtTreeMap α β cmp) (k a : α) :
    (m.erase k)[a]? = if a = k then none else m[a]? := by
  rw [ExtTreeMap.getElem?_erase]
  by_cases h : a = k
  · have hself : cmp k k = .eq := Std.ReflCmp.compare_self
    rw [if_pos h, h, if_pos hself]
  · rw [if_neg h, if_neg fun heq => h (LawfulEqCmp.eq_of_compare heq).symm]

end Lookup

/-- The values of the entries. -/
def values (m : ExtTreeMap α β cmp) : List β := m.toList.map Prod.snd

theorem mem_values [LawfulEqCmp cmp] {v : β} (h : v ∈ values m) : ∃ k : α, m[k]? = some v := by
  obtain ⟨⟨k, v'⟩, hmem, rfl⟩ := List.mem_map.mp h
  exact ⟨k, ExtTreeMap.mem_toList_iff_getElem?_eq_some.mp hmem⟩

/-- A sum over the entries is bounded by their number and a bound for each. -/
theorem sum_values_le [LawfulEqCmp cmp] {f : β → Nat} {bound : Nat}
    (h : ∀ (k : α) v, m[k]? = some v → f v ≤ bound) : ((values m).map f).sum ≤ m.size * bound := by
  have hlength : ((values m).map f).length = m.size := by
    rw [List.length_map, values, List.length_map, ExtTreeMap.length_toList]
  have hsum := List.sum_le_card_nsmul ((values m).map f) bound fun n hn => by
    obtain ⟨v, hv, rfl⟩ := List.mem_map.mp hn
    obtain ⟨k, hk⟩ := mem_values hv
    exact h k v hk
  rw [hlength] at hsum
  exact hsum

end StreamHive.Verified.Table
