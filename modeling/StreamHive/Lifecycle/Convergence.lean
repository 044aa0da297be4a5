import Mathlib.Data.Finset.Insert
import StreamHive.Lifecycle.GoStdlib

/-!
# Convergence of the logical store

Deliveries may be reordered and repeated.  `Store.apply` keeps the newer of two
records of a key and ignores the older, so what a store ends with depends only
on which records reached it.  The invariant of a run is that the table is
`Latest` for the records applied so far: one application preserves it
(`Store.apply_latest`), hence a replay does (`Store.replay_latest`).

## Main results

* `Store.replay_converges` — two sequences with the same valid, consistent
  records are both accepted in full and leave the same snapshot, the newest
  record of each key in namespace and key order.
-/

namespace StreamHive.Lifecycle

open StreamHive.Verified

/-- No two of the records have the same namespace, key and version but different
bodies. -/
def Consistent (records : Set Record) : Prop :=
  ∀ a ∈ records, ∀ b ∈ records, a.key = b.key → a.version = b.version →
    a.bodyEqual b = true

/-- Key, version and body are the whole record. -/
theorem Record.eq_of_bodyEqual {a b : Record} (hkey : a.key = b.key)
    (hversion : a.version = b.version) (hbody : a.bodyEqual b = true) : a = b := by
  cases a
  cases b
  simp only [Record.key, LogicalKey.mk.injEq] at hkey
  simp only [Record.bodyEqual, Bool.and_eq_true, beq_iff_eq] at hbody
  simp_all

theorem Consistent.eq {records : Set Record} (h : Consistent records) :
    ∀ a ∈ records, ∀ b ∈ records, a.key = b.key → a.version = b.version → a = b := by
  intro a ha b hb hkey hversion
  exact Record.eq_of_bodyEqual hkey hversion (h a ha b hb hkey hversion)

namespace Store

/-- Applying a record that the store supersedes changes nothing. -/
theorem apply_superseded {S : Stdlib} {s : Store} {record p : Record}
    (hvalid : record.Valid S s.limits) (hp : s.records.get? record.key = some p)
    (hle : record.version ≤ p.version)
    (hsame : record.version = p.version → record = p) :
    ∃ result, s.apply S record = .ok (result, s) := by
  obtain ⟨result, hresult, houtcome⟩ := classifyRecord_superseded hle hsame
  refine ⟨result, ?_⟩
  unfold apply
  rw [show record.validate S s.limits = .ok () from hvalid, hp, hresult]
  change (if result.outcome = .applied then _ else _) = _
  rw [if_neg houtcome]

/-- One application keeps the table latest for what has been applied. -/
theorem apply_latest {S : Stdlib} {s : Store} {seen : Set Record} {record : Record}
    (h : KeyedMap.Latest Record.version seen s.records)
    (hvalid : record.Valid S s.limits) (hagree : Consistent (insert record seen)) :
    ∃ result s', s.apply S record = .ok (result, s') ∧ s'.limits = s.limits ∧
      KeyedMap.Latest Record.version (insert record seen) s'.records := by
  by_cases hnewer : ∀ p, s.records.get? record.key = some p →
      p.version < record.version
  · exact ⟨_, _, apply_newer hvalid hnewer, rfl, h.put hnewer⟩
  · push Not at hnewer
    obtain ⟨p, hp, hle⟩ := hnewer
    have hsame : record.version = p.version → record = p := by
      intro hversion
      have hseen : p ∈ insert record seen := Set.mem_insert_of_mem _ (h.held _ p hp)
      have hkey : p.key = record.key := KeyedMap.key_of_get? hp
      exact hagree.eq record (Set.mem_insert _ _) p hseen hkey.symm hversion
    obtain ⟨result, hresult⟩ := apply_superseded hvalid hp hle hsame
    exact ⟨result, s, hresult, rfl, h.drop hp hle⟩

/-- A replay accepts every record and keeps the table latest. -/
theorem replay_latest {S : Stdlib} {s : Store} {seen : Set Record}
    {rs : List Record} (h : KeyedMap.Latest Record.version seen s.records)
    (hvalid : ∀ r ∈ rs, r.Valid S s.limits)
    (hagree : Consistent (seen ∪ {r | r ∈ rs})) :
    ∃ s', s.replay S rs = .ok s' ∧
      KeyedMap.Latest Record.version (seen ∪ {r | r ∈ rs}) s'.records := by
  induction rs generalizing s seen with
  | nil =>
    refine ⟨s, rfl, ?_⟩
    simpa using h
  | cons r rest ih =>
    have hseen : seen ∪ {t | t ∈ r :: rest} = insert r seen ∪ {t | t ∈ rest} := by
      ext t
      simp only [List.mem_cons, Set.mem_union, Set.mem_ofPred_eq, Set.mem_insert_iff]
      tauto
    rw [hseen] at hagree ⊢
    have hfirst : Consistent (insert r seen) := by
      intro a ha b hb
      exact hagree a (.inl ha) b (.inl hb)
    obtain ⟨result, s', happly, hlimits, hlatest⟩ :=
      apply_latest h (hvalid r (by simp)) hfirst
    have hrest : ∀ t ∈ rest, t.Valid S s'.limits := by
      intro t ht
      rw [hlimits]
      exact hvalid t (by simp [ht])
    obtain ⟨s'', hreplay, hfinal⟩ := ih hlatest hrest hagree
    refine ⟨s'', ?_, hfinal⟩
    simp only [replay, happly]
    exact hreplay

/-- From an empty store, a sequence of exactly the given records is accepted in
full and leaves the table latest for them. -/
theorem replay_new_latest {S : Stdlib} {limits : Limits} {records : Finset Record}
    (hvalid : ∀ r ∈ records, r.Valid S limits)
    (hagree : Consistent (records : Set Record)) {rs : List Record}
    (hrs : ∀ r, r ∈ rs ↔ r ∈ records) :
    ∃ s, (new limits).replay S rs = .ok s ∧
      KeyedMap.Latest Record.version (records : Set Record) s.records := by
  have hset : (∅ : Set Record) ∪ {r | r ∈ rs} = (records : Set Record) := by
    ext r
    simp [hrs]
  have hvalid' : ∀ r ∈ rs, r.Valid S (new limits).limits := by
    intro r hr
    exact (Record.valid_normalized S limits r).mpr (hvalid r ((hrs r).mp hr))
  have hagree' : Consistent (∅ ∪ {r | r ∈ rs}) := by
    rw [hset]
    exact hagree
  obtain ⟨s, hreplay, hlatest⟩ :=
    replay_latest (s := new limits) KeyedMap.Latest.nothing hvalid' hagree'
  rw [hset] at hlatest
  exact ⟨s, hreplay, hlatest⟩

/-- Order and repetition of deliveries do not matter. -/
theorem replay_converges (S : Stdlib) (limits : Limits) (records : Finset Record)
    (hvalid : ∀ r ∈ records, r.Valid S limits)
    (hagree : Consistent (records : Set Record)) (xs ys : List Record)
    (hxs : ∀ r, r ∈ xs ↔ r ∈ records) (hys : ∀ r, r ∈ ys ↔ r ∈ records) :
    ∃ sx sy, (new limits).replay S xs = .ok sx ∧ (new limits).replay S ys = .ok sy ∧
      sx.snapshot = sy.snapshot ∧
      KeyedMap.KeyAscending LogicalKey.cmp Record.key sx.snapshot ∧
      ∀ r, r ∈ sx.snapshot ↔
        r ∈ records ∧ ∀ t ∈ records, t.key = r.key → t.version ≤ r.version := by
  obtain ⟨sx, hx, hlx⟩ := replay_new_latest hvalid hagree hxs
  obtain ⟨sy, hy, hly⟩ := replay_new_latest hvalid hagree hys
  refine ⟨sx, sy, hx, hy, ?_, KeyedMap.values_ascending _, ?_⟩
  · exact hlx.values_eq hly hagree.eq
  · exact hlx.mem_values hagree.eq

/-- Two records of one key and one of another, in opposite orders and with a
repetition. -/
theorem replay_converges_sample :
    let newer : Record := { Sample.first with version := ⟨1, 3⟩ }
    ∃ sx sy, (new Limits.unset).replay goStdlib [Sample.first, Sample.second, newer] =
        .ok sx ∧
      (new Limits.unset).replay goStdlib
        [newer, Sample.second, Sample.first, Sample.second] = .ok sy ∧
      sx.snapshot = sy.snapshot ∧
      KeyedMap.KeyAscending LogicalKey.cmp Record.key sx.snapshot ∧
      ∀ r, r ∈ sx.snapshot ↔ r ∈ ({Sample.first, Sample.second, newer} : Finset Record) ∧
        ∀ t ∈ ({Sample.first, Sample.second, newer} : Finset Record),
          t.key = r.key → t.version ≤ r.version := by
  intro newer
  refine replay_converges goStdlib Limits.unset {Sample.first, Sample.second, newer}
    (by decide +kernel) ?_ _ _ ?_ ?_
  · have hagree : ∀ a ∈ ({Sample.first, Sample.second, newer} : Finset Record),
        ∀ b ∈ ({Sample.first, Sample.second, newer} : Finset Record),
          a.key = b.key → a.version = b.version → a.bodyEqual b = true := by
      decide +kernel
    intro a ha b hb
    exact hagree a (Finset.mem_coe.mp ha) b (Finset.mem_coe.mp hb)
  · intro r
    simp
  · intro r
    simp only [List.mem_cons, List.not_mem_nil, or_false, Finset.mem_insert,
      Finset.mem_singleton]
    tauto

end Store

end StreamHive.Lifecycle
