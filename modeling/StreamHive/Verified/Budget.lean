import Mathlib.Algebra.Order.Ring.Nat

/-!
# Working through a list within a budget

Items are taken from a list in order.  Each may ask for some amount and costs at most
that amount.  The first item is always taken; later on, an item that asks for more than
is left ends the round, and it and everything behind it are left for the next round.

## Main results

* `admitted_prefix`, `admitted_ne_nil` — a round takes a prefix, and takes something;
* `total_admitted` — a round stays within the budget, or a single item went beyond it;
* `costly_of_left` — nothing is left behind unless something was paid for;
* `forall_admitted_iff` — a property of everything taken, in terms of the whole list.
-/

namespace StreamHive.Verified.Budget

variable {α : Type*}

/-- What the items ask for, if anything, and what they cost in the end: what they asked
for or nothing. -/
structure Tariff (α : Type*) where
  demand : α → Option Nat
  cost : α → Nat
  cost_eq : ∀ x, 0 < cost x → demand x = some (cost x)

namespace Tariff

variable (T : Tariff α) {budget : Int} {spent : Nat} {xs : List α}

/-- Something was spent, and the item asks for more than is left. -/
def Exceeds (budget : Int) (spent : Nat) (x : α) : Prop :=
  0 < spent ∧ ∃ n ∈ T.demand x, ((spent + n : Nat) : Int) > budget

instance (budget : Int) (spent : Nat) : DecidablePred (T.Exceeds budget spent) :=
  fun _ => inferInstanceAs (Decidable (_ ∧ _))

/-- What a round takes. -/
def admitted (budget : Int) : Nat → List α → List α
  | _, [] => []
  | spent, x :: rest =>
    if T.Exceeds budget spent x then []
    else x :: admitted budget (spent + T.cost x) rest

/-- The cost of a list. -/
def total (xs : List α) : Nat := (xs.map T.cost).sum

@[simp] theorem total_nil : T.total [] = 0 := rfl

@[simp] theorem total_cons (x : α) (xs : List α) :
    T.total (x :: xs) = T.cost x + T.total xs := by
  simp [total]

variable {T}

theorem admitted_cons_of_exceeds {x : α} (h : T.Exceeds budget spent x) :
    T.admitted budget spent (x :: xs) = [] := if_pos h

theorem admitted_cons {x : α} (h : ¬T.Exceeds budget spent x) :
    T.admitted budget spent (x :: xs) = x :: T.admitted budget (spent + T.cost x) xs :=
  if_neg h

theorem not_exceeds_zero (x : α) : ¬T.Exceeds budget 0 x := fun h => absurd h.1 (Nat.lt_irrefl 0)

theorem admitted_prefix (spent : Nat) (xs : List α) : T.admitted budget spent xs <+: xs := by
  induction xs generalizing spent with
  | nil => exact List.prefix_rfl
  | cons x rest ih =>
    by_cases h : T.Exceeds budget spent x
    · rw [admitted_cons_of_exceeds h]
      exact List.nil_prefix
    · rw [admitted_cons h]
      exact List.cons_prefix_cons.mpr ⟨rfl, ih _⟩

/-- A round takes at least the first item. -/
theorem admitted_ne_nil (h : xs ≠ []) : T.admitted budget 0 xs ≠ [] := by
  cases xs with
  | nil => exact absurd rfl h
  | cons x rest =>
    rw [admitted_cons (not_exceeds_zero x)]
    exact List.cons_ne_nil _ _

/-- Beyond the budget only items without a cost are taken. -/
theorem cost_eq_zero_of_over (hspent : 0 < spent) (hover : (spent : Int) > budget) :
    ∀ x ∈ T.admitted budget spent xs, T.cost x = 0 := by
  induction xs generalizing spent with
  | nil => simp [admitted]
  | cons x rest ih =>
    by_cases h : T.Exceeds budget spent x
    · simp [admitted_cons_of_exceeds h]
    · rw [admitted_cons h]
      intro y hy
      rcases List.mem_cons.mp hy with rfl | hy
      · by_contra hcost
        refine h ⟨hspent, T.cost y, T.cost_eq y (by omega), ?_⟩
        omega
      · exact ih (by omega) (by omega) y hy

/-- Once something is spent, a round within the budget stays within it. -/
theorem total_le_of_spent (hspent : 0 < spent) (hle : (spent : Int) ≤ budget) :
    ((spent + T.total (T.admitted budget spent xs) : Nat) : Int) ≤ budget := by
  induction xs generalizing spent with
  | nil => simpa [admitted] using hle
  | cons x rest ih =>
    by_cases h : T.Exceeds budget spent x
    · rw [admitted_cons_of_exceeds h]
      simpa using hle
    · rw [admitted_cons h, total_cons, ← Nat.add_assoc]
      refine ih (by omega) ?_
      by_contra hover
      refine h ⟨hspent, T.cost x, T.cost_eq x (by omega), ?_⟩
      omega

/-- A round costs at most the budget, unless exactly one of its items has a cost, and
that alone is more than the budget. -/
theorem total_admitted (hbudget : 0 ≤ budget) (xs : List α) :
    (T.total (T.admitted budget 0 xs) : Int) ≤ budget ∨
      ∃ x, (T.admitted budget 0 xs).filter (0 < T.cost ·) = [x] ∧ (T.cost x : Int) > budget := by
  induction xs with
  | nil => exact .inl hbudget
  | cons x rest ih =>
    rw [admitted_cons (not_exceeds_zero x), Nat.zero_add, total_cons]
    rcases Nat.eq_zero_or_pos (T.cost x) with hzero | hpos
    · rw [hzero, Nat.zero_add, List.filter_cons_of_neg (by simp [hzero])]
      exact ih
    by_cases hle : (T.cost x : Int) ≤ budget
    · exact .inl (total_le_of_spent hpos hle)
    · refine .inr ⟨x, ?_, Int.not_le.mp hle⟩
      have hnone : (T.admitted budget (T.cost x) rest).filter (0 < T.cost ·) = [] := by
        rw [List.filter_eq_nil_iff]
        intro y hy
        have hcost := cost_eq_zero_of_over hpos (Int.not_le.mp hle) y hy
        simp [hcost]
      rw [List.filter_cons_of_pos (by simp [hpos]), hnone]

/-- Something is left behind only after an item with a cost. -/
theorem costly_of_left (h : T.admitted budget 0 xs ≠ xs) :
    ∃ x ∈ T.admitted budget 0 xs, 0 < T.cost x := by
  induction xs with
  | nil => exact absurd rfl h
  | cons x rest ih =>
    rw [admitted_cons (not_exceeds_zero x), Nat.zero_add] at h ⊢
    rcases Nat.eq_zero_or_pos (T.cost x) with hzero | hpos
    · rw [hzero] at h ⊢
      obtain ⟨y, hy, hcost⟩ := ih fun heq => h (by rw [heq])
      exact ⟨y, List.mem_cons_of_mem _ hy, hcost⟩
    · exact ⟨x, List.mem_cons_self .., hpos⟩

/-- The list has an item at or before the last of `xs` that ends the round. -/
def Ends (T : Tariff α) (budget : Int) (spent : Nat) (xs : List α) : Prop :=
  ∃ pre x post, xs = pre ++ x :: post ∧ T.Exceeds budget (spent + T.total pre) x

theorem ends_cons {x : α} (h : ¬T.Exceeds budget spent x) :
    Ends T budget spent (x :: xs) ↔ Ends T budget (spent + T.cost x) xs := by
  constructor
  · rintro ⟨pre, y, post, hsplit, hexceeds⟩
    cases pre with
    | nil =>
      obtain ⟨rfl, _⟩ := List.cons.inj hsplit
      exact absurd hexceeds h
    | cons z pre =>
      obtain ⟨rfl, hrest⟩ := List.cons.inj hsplit
      rw [total_cons, ← Nat.add_assoc] at hexceeds
      exact ⟨pre, y, post, hrest, hexceeds⟩
  · rintro ⟨pre, y, post, rfl, hexceeds⟩
    refine ⟨x :: pre, y, post, rfl, ?_⟩
    rwa [total_cons, ← Nat.add_assoc]

/-- Every item that a round takes has the property exactly if an item without it comes
only when the round has ended, at that item or before. -/
theorem forall_admitted_iff {P : α → Prop} (spent : Nat) (xs : List α) :
    (∀ x ∈ T.admitted budget spent xs, P x) ↔
      ∀ pre x post, xs = pre ++ x :: post → ¬P x → Ends T budget spent (pre ++ [x]) := by
  induction xs generalizing spent with
  | nil =>
    refine ⟨fun _ pre x post hsplit _ => ?_, fun _ => by simp [admitted]⟩
    exact absurd hsplit (by simp)
  | cons y rest ih =>
    by_cases h : T.Exceeds budget spent y
    · rw [admitted_cons_of_exceeds h]
      refine ⟨fun _ pre x post hsplit _ => ?_, fun _ => by simp⟩
      cases pre with
      | nil =>
        obtain ⟨rfl, _⟩ := List.cons.inj hsplit
        exact ⟨[], _, [], rfl, h⟩
      | cons z pre =>
        obtain ⟨rfl, _⟩ := List.cons.inj hsplit
        exact ⟨[], _, pre ++ [x], rfl, h⟩
    · rw [admitted_cons h, List.forall_mem_cons, ih]
      constructor
      · rintro ⟨hy, hrest⟩ pre x post hsplit hx
        cases pre with
        | nil =>
          obtain ⟨rfl, _⟩ := List.cons.inj hsplit
          exact absurd hy hx
        | cons z pre =>
          obtain ⟨rfl, htail⟩ := List.cons.inj hsplit
          exact (ends_cons h).mpr (hrest pre x post htail hx)
      · intro hall
        constructor
        · by_contra hy
          obtain ⟨pre, x, post, hsplit, hexceeds⟩ := hall [] y rest rfl hy
          cases pre with
          | nil =>
            obtain ⟨rfl, _⟩ := List.cons.inj hsplit
            exact h hexceeds
          | cons z pre =>
            have hlength := congrArg List.length hsplit
            simp at hlength
        · intro pre x post hsplit hx
          refine (ends_cons h).mp (hall (y :: pre) x post ?_ hx)
          rw [hsplit]
          rfl

end Tariff

end StreamHive.Verified.Budget
