import Mathlib.Data.List.Induction
import Mathlib.Data.List.Sort

/-!
# Walking a sorted list with a cursor

A long list is sent in portions.  The place reached is remembered as a cursor,
the last element sent, and the next portion starts behind it.  Portions are cut
to size by halving: the largest of `n`, `n / 2`, `n / 4`, … that is acceptable is
taken, and one element when none is.

## Main results

* `above_behind` — in a sorted list, moving the cursor to an element of the rest
  leaves exactly what follows that element.
* `dropWhile_eq_above` — the first element above the cursor starts the rest, so a
  binary search for it finds the rest.
* `Scans.sorted`, `Scans.mem`, `Scans.complete`, `Scans.eq_of_unchanged` — what a scan
  returns of a set that may change between its pages;
* `insert_take` — a bounded insertion keeps the smallest elements.
* `halve_pos`, `halve_le`, `halve_accepts` — a halving search returns between one
  and `n` elements, and an acceptable number unless it returns one.
* `halve_eq_of_implies` — a stricter condition that still accepts the result of the
  search changes nothing.
-/

namespace StreamHive.Verified.Paging

section Cursor

variable {κ : Type} {cmp : κ → κ → Ordering} {cursor : κ} {keys : List κ}

/-- Strictly ascending. -/
def Sorted (cmp : κ → κ → Ordering) (keys : List κ) : Prop :=
  keys.Pairwise fun a b => cmp a b = .lt

/-- The elements above the cursor. -/
def above (cmp : κ → κ → Ordering) (cursor : κ) (keys : List κ) : List κ :=
  keys.filter fun k => cmp cursor k = .lt

/-- A scan from the cursor on that passes over the cursor itself. -/
theorem filter_scan {p : κ → Prop} [DecidablePred p]
    (hlt : ∀ k ∈ keys, cmp cursor k = .lt → p k) (heq : ∀ k ∈ keys, cmp cursor k = .eq → ¬p k) :
    ((keys.filter fun k => (cmp cursor k).isLE).filter fun k => p k) =
      above cmp cursor keys := by
  unfold above
  rw [List.filter_filter]
  apply List.filter_congr
  intro k hk
  cases hcmp : cmp cursor k with
  | lt => simp [hlt k hk hcmp]
  | eq => simp [heq k hk hcmp]
  | gt => simp

/-- The last element of a list, or the cursor that stood before it. -/
def lastOr (cursor : κ) (keys : List κ) : κ := keys.getLast?.getD cursor

@[simp] theorem lastOr_nil (cursor : κ) : lastOr cursor ([] : List κ) = cursor := rfl

@[simp] theorem lastOr_concat (cursor k : κ) (keys : List κ) :
    lastOr cursor (keys ++ [k]) = k := by
  simp [lastOr]

theorem lastOr_append (cursor : κ) (front rest : List κ) :
    lastOr cursor (front ++ rest) = lastOr (lastOr cursor front) rest := by
  induction rest using List.reverseRecOn with
  | nil => simp
  | append_singleton rest k _ => rw [← List.append_assoc, lastOr_concat, lastOr_concat]

theorem lastOr_mem (h : keys ≠ []) :
    lastOr cursor keys ∈ keys := by
  obtain ⟨front, k, rfl⟩ := List.eq_nil_or_concat keys |>.resolve_left h
  simp

theorem getLast?_eq_lastOr (h : keys ≠ []) (cursor : κ) :
    keys.getLast? = some (lastOr cursor keys) := by
  obtain ⟨front, k, rfl⟩ := List.eq_nil_or_concat keys |>.resolve_left h
  simp

theorem Sorted.above (h : Sorted cmp keys) (cursor : κ) :
    Sorted cmp (above cmp cursor keys) :=
  List.Pairwise.filter _ h

theorem lt_of_mem_above {cursor k : κ} (h : k ∈ above cmp cursor keys) :
    cmp cursor k = .lt := by
  simpa using (List.mem_filter.mp h).2

theorem above_eq_self (h : ∀ k ∈ keys, cmp cursor k = .lt) :
    above cmp cursor keys = keys := by
  apply List.filter_eq_self.mpr
  intro k hk
  simpa using h k hk

/-- Sorting by insertion. -/
def sort (cmp : κ → κ → Ordering) (keys : List κ) : List κ :=
  keys.insertionSort fun a b => (cmp a b).isLE = true

theorem sort_perm (keys : List κ) : (sort cmp keys).Perm keys :=
  List.perm_insertionSort _ keys

theorem sort_eq_self (h : Sorted cmp keys) : sort cmp keys = keys := by
  have hle : keys.Pairwise fun a b => (cmp a b).isLE = true := by
    refine h.imp ?_
    intro a b hab
    rw [hab]
    rfl
  exact hle.insertionSort_eq

variable [Std.TransCmp cmp]

theorem above_eq_nil (h : ∀ k ∈ keys, cmp k cursor ≠ .gt) :
    above cmp cursor keys = [] := by
  apply List.filter_eq_nil_iff.mpr
  intro k hk hlt
  exact h k hk (Std.OrientedCmp.gt_iff_lt.mpr (by simpa using hlt))

/-- Moving the cursor up to `k` looks only at what was above it before. -/
theorem above_above {cursor k : κ} (h : cmp cursor k = .lt) :
    above cmp k (above cmp cursor keys) = above cmp k keys := by
  unfold Paging.above
  rw [List.filter_filter]
  apply List.filter_congr
  intro a _
  by_cases hka : cmp k a = .lt
  · simp [hka, Std.TransCmp.lt_trans h hka]
  · simp [hka]

/-- Moving the cursor to an element of the rest leaves what follows it. -/
theorem above_behind {cursor k : κ} {keys front rest : List κ} (hs : Sorted cmp keys)
    (h : above cmp cursor keys = front ++ k :: rest) : above cmp k keys = rest := by
  have hk : cmp cursor k = .lt := lt_of_mem_above (h ▸ by simp : k ∈ above cmp cursor keys)
  have hsorted : Sorted cmp (front ++ k :: rest) := h ▸ hs.above cursor
  obtain ⟨_, hrest, hfront⟩ := List.pairwise_append.mp hsorted
  have hbelow : above cmp k (front ++ [k]) = [] := by
    apply above_eq_nil
    intro a ha
    rcases List.mem_append.mp ha with ha | ha
    · rw [hfront a ha k (by simp)]
      decide
    · have hself : cmp k k = .eq := Std.ReflCmp.compare_self
      rw [List.mem_singleton.mp ha, hself]
      decide
  have habove : above cmp k rest = rest :=
    above_eq_self fun a ha => List.rel_of_pairwise_cons hrest ha
  rw [← above_above hk, h, List.append_cons]
  unfold Paging.above at hbelow habove ⊢
  rw [List.filter_append, hbelow, habove, List.nil_append]

/-- Moving the cursor to the end of a front part leaves the rest. -/
theorem above_lastOr {keys front rest : List κ} (hs : Sorted cmp keys)
    (h : above cmp cursor keys = front ++ rest) :
    above cmp (lastOr cursor front) keys = rest := by
  induction front using List.reverseRecOn with
  | nil => simpa using h
  | append_singleton front k _ =>
    rw [lastOr_concat]
    exact above_behind hs (by simpa using h)

/-- The first element above the cursor starts the rest. -/
theorem dropWhile_eq_above (hs : Sorted cmp keys) :
    keys.dropWhile (fun k => cmp cursor k ≠ .lt) = above cmp cursor keys := by
  induction keys with
  | nil => rfl
  | cons k keys ih =>
    obtain ⟨hk, hrest⟩ := List.pairwise_cons.mp hs
    by_cases hlt : cmp cursor k = .lt
    · have hall : above cmp cursor (k :: keys) = k :: keys := by
        apply above_eq_self
        exact List.forall_mem_cons.mpr ⟨hlt, fun a ha => Std.TransCmp.lt_trans hlt (hk a ha)⟩
      rw [hall]
      simp [hlt]
    · have hdrop : above cmp cursor (k :: keys) = above cmp cursor keys := by
        simp [Paging.above, hlt]
      rw [hdrop, ← ih hrest]
      simp [hlt]

theorem sort_sorted [Std.LawfulEqCmp cmp] (h : keys.Nodup) :
    Sorted cmp (sort cmp keys) := by
  have htotal : Std.Total fun a b => (cmp a b).isLE = true := by
    constructor
    intro a b
    have hswap : cmp b a = (cmp a b).swap := Std.OrientedCmp.eq_swap
    rw [hswap]
    cases cmp a b <;> simp
  have htrans : IsTrans κ fun a b => (cmp a b).isLE = true :=
    ⟨fun _ _ _ hab hbc => Std.TransCmp.isLE_trans hab hbc⟩
  have hle : (sort cmp keys).Pairwise fun a b => (cmp a b).isLE = true :=
    List.pairwise_insertionSort _ keys
  have hnodup : (sort cmp keys).Nodup := (sort_perm keys).nodup_iff.mpr h
  refine (hle.and hnodup).imp ?_
  intro a b ⟨hab, hne⟩
  cases hcmp : cmp a b with
  | lt => rfl
  | eq => exact absurd (Std.LawfulEqCmp.eq_of_compare hcmp) hne
  | gt => simp [hcmp] at hab

theorem Sorted.nodup (h : Sorted cmp keys) : keys.Nodup := by
  refine h.imp ?_
  intro a b hab heq
  have hself : cmp b b = .eq := Std.ReflCmp.compare_self
  rw [heq, hself] at hab
  cases hab

/-- Two strictly ascending lists with the same elements are equal. -/
theorem Sorted.eq_of_mem_iff {xs ys : List κ} (hx : Sorted cmp xs) (hy : Sorted cmp ys)
    (h : ∀ k, k ∈ xs ↔ k ∈ ys) : xs = ys := by
  have hperm : xs.Perm ys := (List.perm_ext_iff_of_nodup hx.nodup hy.nodup).mpr h
  refine hperm.eq_of_pairwise ?_ hx hy
  intro a b _ _ hab hba
  have hswap : cmp b a = (cmp a b).swap := Std.OrientedCmp.eq_swap
  rw [hab] at hswap
  rw [hswap] at hba
  cases hba

theorem sort_eq_of_perm [Std.LawfulEqCmp cmp] {xs ys : List κ} (h : xs.Perm ys)
    (hnodup : xs.Nodup) : sort cmp xs = sort cmp ys := by
  refine Sorted.eq_of_mem_iff (sort_sorted hnodup) (sort_sorted (h.nodup hnodup)) fun k => ?_
  rw [(sort_perm xs).mem_iff, (sort_perm ys).mem_iff, h.mem_iff]

theorem Sorted.sort_perm [Std.LawfulEqCmp cmp] {xs keys : List κ} (hs : Sorted cmp keys)
    (h : xs.Perm keys) : sort cmp xs = keys := by
  rw [← sort_eq_of_perm h.symm hs.nodup, sort_eq_self hs]

end Cursor

section Live

variable {κ : Type} {cmp : κ → κ → Ordering} {cursor : κ} {keys : List κ}

/-- One page: what is there when it is read, and what is read. -/
structure Read (κ : Type) where
  present : List κ
  page : List κ
  deriving DecidableEq

/-- All that a list of reads returns. -/
def pages (reads : List (Read κ)) : List κ := reads.flatMap Read.page

/-- Each read returns the next elements behind the last one that was returned, and no
element only if there is none.  What is there may be different each time. -/
def Scans (cmp : κ → κ → Ordering) : κ → List (Read κ) → Prop
  | _, [] => True
  | cursor, r :: rest =>
    Sorted cmp r.present ∧ r.page <+: above cmp cursor r.present ∧
      (r.page = [] → above cmp cursor r.present = []) ∧ Scans cmp (lastOr cursor r.page) rest

/-- The last read returned nothing. -/
def Ended (reads : List (Read κ)) : Prop := ∃ front r, reads = front ++ [r] ∧ r.page = []

theorem Ended.tail {r r' : Read κ} {rest : List (Read κ)} (h : Ended (r :: r' :: rest)) :
    Ended (r' :: rest) := by
  obtain ⟨front, last, hsplit, hlast⟩ := h
  cases front with
  | nil => simp at hsplit
  | cons _ front =>
    rw [List.cons_append, List.cons.injEq] at hsplit
    exact ⟨front, last, hsplit.2, hlast⟩

theorem Ended.single {r : Read κ} (h : Ended [r]) : r.page = [] := by
  obtain ⟨front, last, hsplit, hlast⟩ := h
  cases front with
  | nil =>
    rw [List.nil_append, List.cons.injEq] at hsplit
    rw [hsplit.1]
    exact hlast
  | cons _ front => simp at hsplit

@[simp] theorem pages_cons (r : Read κ) (rest : List (Read κ)) :
    pages (r :: rest) = r.page ++ pages rest := List.flatMap_cons

variable {reads : List (Read κ)}

/-- Every element that is returned was there when it was read. -/
theorem Scans.mem (h : Scans cmp cursor reads) :
    ∀ r ∈ reads, ∀ k ∈ r.page, k ∈ r.present := by
  induction reads generalizing cursor with
  | nil => simp
  | cons r rest ih =>
    obtain ⟨_, hnext, _, hrest⟩ := h
    intro r' hr' k hk
    rcases List.mem_cons.mp hr' with rfl | hr'
    · exact (List.mem_filter.mp (hnext.subset hk)).1
    · exact ih hrest r' hr' k hk

variable [Std.TransCmp cmp]

theorem lt_lastOr {page : List κ} (h : ∀ k ∈ page, cmp cursor k = .lt) {k : κ}
    (hk : cmp (lastOr cursor page) k = .lt) : cmp cursor k = .lt := by
  by_cases hnil : page = []
  · rw [hnil] at hk
    exact hk
  · exact Std.TransCmp.lt_trans (h _ (lastOr_mem hnil)) hk

/-- The elements of a page are not above its last one. -/
theorem Sorted.isLE_lastOr {page : List κ} (h : Sorted cmp page) {k : κ}
    (hk : k ∈ page) : (cmp k (lastOr cursor page)).isLE := by
  induction page using List.reverseRecOn with
  | nil => cases hk
  | append_singleton front last _ =>
    rw [lastOr_concat]
    rcases List.mem_append.mp hk with hk | hk
    · have hlt := (List.pairwise_append.mp h).2.2 k hk last (List.mem_singleton_self _)
      rw [hlt]
      rfl
    · have hself : cmp last last = .eq := Std.ReflCmp.compare_self
      rw [List.mem_singleton.mp hk, hself]
      rfl

theorem Scans.lt (h : Scans cmp cursor reads) :
    ∀ k ∈ pages reads, cmp cursor k = .lt := by
  induction reads generalizing cursor with
  | nil => simp [pages]
  | cons r rest ih =>
    obtain ⟨_, hnext, _, hrest⟩ := h
    have hpage : ∀ k ∈ r.page, cmp cursor k = .lt :=
      fun k hk => lt_of_mem_above (hnext.subset hk)
    intro k hk
    rw [pages_cons] at hk
    rcases List.mem_append.mp hk with hk | hk
    · exact hpage k hk
    · exact lt_lastOr hpage (ih hrest k hk)

/-- What a scan returns is strictly ascending. -/
theorem Scans.sorted (h : Scans cmp cursor reads) :
    Sorted cmp (pages reads) := by
  induction reads generalizing cursor with
  | nil => exact List.Pairwise.nil
  | cons r rest ih =>
    obtain ⟨hsorted, hnext, _, hrest⟩ := h
    have hpage : Sorted cmp r.page := (hsorted.above cursor).sublist hnext.sublist
    rw [pages_cons]
    refine List.pairwise_append.mpr ⟨hpage, ih hrest, ?_⟩
    intro a ha k hk
    exact Std.TransCmp.lt_of_isLE_of_lt (hpage.isLE_lastOr ha) (hrest.lt k hk)

/-- An element above the cursor that is there at every read is returned. -/
theorem Scans.complete {cursor k : κ} (h : Scans cmp cursor reads)
    (hended : Ended reads) (hk : cmp cursor k = .lt) (hall : ∀ r ∈ reads, k ∈ r.present) :
    k ∈ pages reads := by
  induction reads generalizing cursor with
  | nil =>
    obtain ⟨front, r, hsplit, _⟩ := hended
    simp at hsplit
  | cons r rest ih =>
    obtain ⟨hsorted, ⟨left, hleft⟩, hempty, hrest⟩ := h
    have habove : k ∈ above cmp cursor r.present :=
      List.mem_filter.mpr ⟨hall r (List.mem_cons_self ..), by simpa using hk⟩
    rw [pages_cons]
    refine List.mem_append.mpr ?_
    by_cases hpage : k ∈ r.page
    · exact .inl hpage
    refine .inr ?_
    have hk_left : k ∈ left := by
      rw [← hleft] at habove
      exact (List.mem_append.mp habove).resolve_left hpage
    cases rest with
    | nil =>
      rw [hempty hended.single] at habove
      cases habove
    | cons r' rest =>
      have hbehind : cmp (lastOr cursor r.page) k = .lt := by
        rw [← above_lastOr hsorted hleft.symm] at hk_left
        exact lt_of_mem_above hk_left
      exact ih hrest hended.tail hbehind fun r'' hr'' => hall r'' (List.mem_cons_of_mem _ hr'')

/-- A scan of what does not change returns all of it. -/
theorem Scans.eq_of_unchanged
    (h : Scans cmp cursor reads) (hended : Ended reads) (hkeys : Sorted cmp keys)
    (hall : ∀ r ∈ reads, r.present = keys) : pages reads = above cmp cursor keys := by
  refine h.sorted.eq_of_mem_iff (hkeys.above cursor) fun k => ⟨fun hk => ?_, fun hk => ?_⟩
  · obtain ⟨r, hr, hpage⟩ := List.mem_flatMap.mp hk
    refine List.mem_filter.mpr ⟨?_, by simpa using h.lt k hk⟩
    rw [← hall r hr]
    exact h.mem r hr k hpage
  · refine h.complete hended (lt_of_mem_above hk) fun r hr => ?_
    rw [hall r hr]
    exact (List.mem_filter.mp hk).1

/-- A scan of what does not change is not longer than what there is, until it returns
nothing. -/
theorem Scans.length_le (h : Scans cmp cursor reads) (hall : ∀ r ∈ reads, r.present = keys)
    (hpages : ∀ r ∈ reads, r.page ≠ []) : reads.length ≤ (above cmp cursor keys).length := by
  induction reads generalizing cursor with
  | nil => exact Nat.zero_le _
  | cons r rest ih =>
    obtain ⟨hsorted, ⟨left, hleft⟩, _, hrest⟩ := h
    have hpresent := hall r (List.mem_cons_self ..)
    rw [hpresent] at hsorted hleft
    have hbehind := above_lastOr hsorted hleft.symm
    have hshorter := ih hrest (fun r' hr' => hall r' (List.mem_cons_of_mem _ hr'))
      fun r' hr' => hpages r' (List.mem_cons_of_mem _ hr')
    have hpos := List.length_pos_iff.mpr (hpages r (List.mem_cons_self ..))
    rw [hbehind] at hshorter
    rw [← hleft, List.length_append, List.length_cons]
    omega

end Live

section Insertion

variable {κ : Type} {cmp : κ → κ → Ordering}

/-- Insert an element before the first that is not below it. -/
def insert (cmp : κ → κ → Ordering) (k : κ) (keys : List κ) : List κ :=
  keys.takeWhile (fun a => cmp a k = .lt) ++ k :: keys.dropWhile (fun a => cmp a k = .lt)

theorem insert_cons_of_lt {k a : κ} (h : cmp a k = .lt) (keys : List κ) :
    insert cmp k (a :: keys) = a :: insert cmp k keys := by
  unfold insert
  rw [List.takeWhile_cons_of_pos (by simpa using h), List.dropWhile_cons_of_pos (by simpa using h)]
  rfl

theorem insert_cons_of_not_lt {k a : κ} (h : cmp a k ≠ .lt) (keys : List κ) :
    insert cmp k (a :: keys) = k :: a :: keys := by
  unfold insert
  rw [List.takeWhile_cons_of_neg (by simpa using h), List.dropWhile_cons_of_neg (by simpa using h)]
  rfl

theorem mem_insert {k a : κ} {keys : List κ} : a ∈ insert cmp k keys ↔ a = k ∨ a ∈ keys := by
  have hsplit : a ∈ keys ↔ a ∈ keys.takeWhile (fun a => cmp a k = .lt) ∨
      a ∈ keys.dropWhile (fun a => cmp a k = .lt) := by
    rw [← List.mem_append, List.takeWhile_append_dropWhile]
  unfold insert
  rw [List.mem_append, List.mem_cons, hsplit]
  tauto

/-- Of an insertion into the first elements, as many are the first of an insertion into
all. -/
theorem insert_take (k : κ) (keys : List κ) (n : Nat) :
    (insert cmp k (keys.take n)).take n = (insert cmp k keys).take n := by
  induction keys generalizing n with
  | nil => rw [List.take_nil]
  | cons a keys ih =>
    cases n with
    | zero => rw [List.take_zero, List.take_zero]
    | succ n =>
      rw [List.take_succ_cons]
      by_cases ha : cmp a k = .lt
      · rw [insert_cons_of_lt ha, insert_cons_of_lt ha, List.take_succ_cons,
          List.take_succ_cons, ih]
      · rw [insert_cons_of_not_lt ha, insert_cons_of_not_lt ha, List.take_succ_cons,
          List.take_succ_cons]
        cases n with
        | zero => rw [List.take_zero, List.take_zero]
        | succ n =>
          rw [List.take_succ_cons, List.take_succ_cons, List.take_take]
          congr 3
          omega

theorem Sorted.insert [Std.TransCmp cmp] [Std.LawfulEqCmp cmp] {k : κ} {keys : List κ}
    (h : Sorted cmp keys) (hk : k ∉ keys) : Sorted cmp (insert cmp k keys) := by
  induction keys with
  | nil => exact List.pairwise_singleton _ _
  | cons a keys ih =>
    obtain ⟨ha, hkeys⟩ := List.pairwise_cons.mp h
    by_cases hlt : cmp a k = .lt
    · rw [insert_cons_of_lt hlt]
      refine List.pairwise_cons.mpr ⟨fun b hb => ?_, ?_⟩
      · rcases mem_insert.mp hb with rfl | hb
        · exact hlt
        · exact ha b hb
      · exact ih hkeys fun hmem => hk (List.mem_cons_of_mem _ hmem)
    · have hka : cmp k a = .lt := by
        have hswap : cmp k a = (cmp a k).swap := Std.OrientedCmp.eq_swap
        cases hcmp : cmp a k with
        | lt => exact absurd hcmp hlt
        | eq =>
          have heq : a = k := Std.LawfulEqCmp.eq_of_compare hcmp
          exact absurd (List.mem_cons.mpr (.inl heq.symm)) hk
        | gt =>
          rw [hswap, hcmp]
          rfl
      rw [insert_cons_of_not_lt hlt]
      refine List.pairwise_cons.mpr ⟨List.forall_mem_cons.mpr ⟨hka, fun b hb => ?_⟩, h⟩
      exact Std.TransCmp.lt_trans hka (ha b hb)

end Insertion

section Halving

variable {accepts stricter : Nat → Prop} [DecidablePred accepts] [DecidablePred stricter]

/-- The first acceptable number among `n`, `n / 2`, `n / 4`, …, or one; `fuel`
bounds the number of halvings. -/
def halve (accepts : Nat → Prop) [DecidablePred accepts] : Nat → Nat → Nat
  | 0, n => n
  | fuel + 1, n => if accepts n ∨ n ≤ 1 then n else halve accepts fuel (n / 2)

theorem halve_le (fuel n : Nat) : halve accepts fuel n ≤ n := by
  induction fuel generalizing n with
  | zero => exact Nat.le_refl n
  | succ fuel ih =>
    unfold halve
    split
    · exact Nat.le_refl n
    · have := ih (n / 2)
      omega

theorem halve_pos (fuel : Nat) {n : Nat} (h : 0 < n) : 0 < halve accepts fuel n := by
  induction fuel generalizing n with
  | zero => exact h
  | succ fuel ih =>
    unfold halve
    split
    · exact h
    · next hn => exact ih (by omega)

theorem halve_accepts {fuel n : Nat} (hfuel : n ≤ fuel) (h : 0 < n) :
    accepts (halve accepts fuel n) ∨ halve accepts fuel n = 1 := by
  induction fuel generalizing n with
  | zero => omega
  | succ fuel ih =>
    unfold halve
    split
    · next hn =>
        rcases hn with hn | hn
        · exact .inl hn
        · exact .inr (by omega)
    · exact ih (by omega) (by omega)

/-- A stricter condition that still accepts the result changes nothing. -/
theorem halve_eq_of_implies (himplies : ∀ n, stricter n → accepts n) (fuel : Nat) {n : Nat}
    (h : stricter (halve accepts fuel n)) :
    halve stricter fuel n = halve accepts fuel n := by
  induction fuel generalizing n with
  | zero => rfl
  | succ fuel ih =>
    unfold halve at h ⊢
    by_cases hn : accepts n ∨ n ≤ 1
    · rw [if_pos hn] at h ⊢
      rw [if_pos (.inl h)]
    · rw [if_neg hn] at h ⊢
      have hstrict : ¬(stricter n ∨ n ≤ 1) := by
        intro hs
        exact hn (hs.imp (himplies n) id)
      rw [if_neg hstrict]
      exact ih h

end Halving

end StreamHive.Verified.Paging
