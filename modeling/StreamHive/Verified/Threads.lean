import Mathlib.Algebra.Order.BigOperators.Group.List
import Mathlib.Algebra.Order.Ring.Nat

/-!
# Threads over a shared state

A pool is a shared state and a list of threads.  A thread that runs performs one atomic
section on the shared state and is replaced by the threads that it becomes and starts.
What holds of every interleaving is proved from single sections: a quantity of the
shared state that equals a sum over the threads, a quantity that bounds such a sum, and
a relation between the shared state and each thread.

## Main results

* `Pool.run_cases` — a thread that runs replaces itself in the list;
* `total_replace` — what that does to a sum over the threads;
* `count_replace`, `eq_false_of_count_le` — how many threads are in some position, and
  that no other is where one of at most one is;
* `forall_replace` — what that does to a relation with each thread.
-/

namespace StreamHive.Verified.Threads

variable {σ τ χ : Type*}

/-- A shared state and the threads at work on it. -/
structure Pool (σ τ : Type*) where
  shared : σ
  threads : List τ

/-- The next section of a thread, under a choice of its environment: the shared state
after it and the threads in its place, or nothing when it cannot run. -/
abbrev Program (χ σ τ : Type*) := χ → σ → τ → Option (σ × List τ)

namespace Pool

/-- The thread at an index runs one section. -/
def run (next : Program χ σ τ) (p : Pool σ τ) (i : Nat) (choice : χ) : Pool σ τ :=
  match p.threads[i]? with
  | none => p
  | some t =>
    match next choice p.shared t with
    | none => p
    | some (shared, ts) => ⟨shared, p.threads.take i ++ ts ++ p.threads.drop (i + 1)⟩

/-- A new thread is started from outside. -/
def start (p : Pool σ τ) (t : τ) : Pool σ τ := ⟨p.shared, p.threads ++ [t]⟩

/-- A thread that can run replaces itself in the list. -/
theorem run_of_next {next : Program χ σ τ} {p : Pool σ τ} {i : Nat} {choice : χ} {t : τ}
    {shared : σ} {ts : List τ} (hget : p.threads[i]? = some t)
    (hnext : next choice p.shared t = some (shared, ts)) :
    ∃ before after, p = ⟨p.shared, before ++ t :: after⟩ ∧
      p.run next i choice = ⟨shared, before ++ ts ++ after⟩ := by
  obtain ⟨hi, ht⟩ := List.getElem?_eq_some_iff.mp hget
  refine ⟨p.threads.take i, p.threads.drop (i + 1), ?_, ?_⟩
  · obtain ⟨s, threads⟩ := p
    rw [← ht, List.getElem_cons_drop, List.take_append_drop]
  · unfold run
    rw [hget]
    simp only [hnext]

theorem run_cases (next : Program χ σ τ) (p : Pool σ τ) (i : Nat) (choice : χ) :
    p.run next i choice = p ∨
      ∃ before t after shared ts, p = ⟨p.shared, before ++ t :: after⟩ ∧
        p.threads[i]? = some t ∧ next choice p.shared t = some (shared, ts) ∧
        p.run next i choice = ⟨shared, before ++ ts ++ after⟩ := by
  cases hget : p.threads[i]? with
  | none =>
    left
    unfold run
    rw [hget]
  | some t =>
  cases hnext : next choice p.shared t with
  | none =>
    left
    unfold run
    rw [hget]
    simp only [hnext]
  | some result =>
    obtain ⟨before, after, hsplit, hrun⟩ := run_of_next hget hnext
    exact .inr ⟨before, t, after, result.1, result.2, hsplit, rfl, hnext, hrun⟩

end Pool

/-! ## Sums over the threads -/

/-- The total weight of the threads. -/
def total (w : τ → Nat) (threads : List τ) : Nat := (threads.map w).sum

variable {w : τ → Nat} {before after ts : List τ} {t : τ}

@[simp] theorem total_nil : total w [] = 0 := rfl

@[simp] theorem total_cons (t : τ) (ts : List τ) : total w (t :: ts) = w t + total w ts := by
  simp [total]

@[simp] theorem total_append (ts us : List τ) :
    total w (ts ++ us) = total w ts + total w us := by
  simp [total]

/-- Replacing a thread changes the sum by the difference of the weights. -/
theorem total_replace (before after ts : List τ) (t : τ) :
    total w (before ++ ts ++ after) + w t = total w (before ++ t :: after) + total w ts := by
  simp only [total_append, total_cons]
  omega

theorem le_total {threads : List τ} (h : t ∈ threads) : w t ≤ total w threads :=
  List.single_le_sum (by simp) _ (List.mem_map_of_mem h)

theorem total_eq_zero {threads : List τ} : total w threads = 0 ↔ ∀ t ∈ threads, w t = 0 := by
  unfold total
  rw [List.sum_eq_zero_iff]
  simp

theorem total_mono {v : τ → Nat} (h : ∀ t, v t ≤ w t) (threads : List τ) :
    total v threads ≤ total w threads := by
  induction threads with
  | nil => simp
  | cons t rest ih =>
    have ht := h t
    simp only [total_cons]
    omega

/-! ## Numbers of threads -/

/-- The number of threads with a property. -/
def count (p : τ → Bool) (threads : List τ) : Nat := total (fun t => if p t then 1 else 0) threads

variable {p : τ → Bool}

@[simp] theorem count_nil : count p [] = 0 := rfl

@[simp] theorem count_cons (t : τ) (ts : List τ) :
    count p (t :: ts) = (if p t then 1 else 0) + count p ts := total_cons ..

@[simp] theorem count_append (ts us : List τ) : count p (ts ++ us) = count p ts + count p us :=
  total_append ..

theorem count_replace (before after ts : List τ) (t : τ) :
    count p (before ++ ts ++ after) + (if p t then 1 else 0) =
      count p (before ++ t :: after) + count p ts :=
  total_replace before after ts t

theorem count_eq_zero {threads : List τ} (h : ∀ t ∈ threads, p t = false) :
    count p threads = 0 := by
  unfold count
  rw [total_eq_zero]
  intro t ht
  rw [h t ht]
  rfl

theorem count_eq_length {threads : List τ} (h : ∀ t ∈ threads, p t = true) :
    count p threads = threads.length := by
  induction threads with
  | nil => rfl
  | cons t rest ih =>
    rw [count_cons, h t (List.mem_cons_self ..),
      ih fun u hu => h u (List.mem_cons_of_mem _ hu), List.length_cons, if_pos rfl, Nat.add_comm]

/-- Threads with the property in place of one with it. -/
theorem count_replace_true (before after : List τ) (ht : p t = true) (hts : ∀ u ∈ ts, p u = true) :
    count p (before ++ ts ++ after) + 1 = count p (before ++ t :: after) + ts.length := by
  have hreplace := count_replace before after ts t (p := p)
  rwa [if_pos ht, count_eq_length hts] at hreplace

/-- Threads without the property in place of one without it. -/
theorem count_replace_false (before after : List τ) (ht : p t = false)
    (hts : ∀ u ∈ ts, p u = false) :
    count p (before ++ ts ++ after) = count p (before ++ t :: after) := by
  have hreplace := count_replace before after ts t (p := p)
  rw [ht, count_eq_zero hts] at hreplace
  exact hreplace

theorem exists_of_count_pos {threads : List τ} (h : 0 < count p threads) :
    ∃ t ∈ threads, p t = true := by
  by_contra hnone
  have hzero : count p threads = 0 := by
    refine count_eq_zero fun t ht => ?_
    by_contra hp
    exact hnone ⟨t, ht, by simpa using hp⟩
  omega

theorem eq_false_of_count_eq_zero {threads : List τ} (h : count p threads = 0) :
    ∀ t ∈ threads, p t = false := by
  intro t ht
  have hzero := total_eq_zero.mp h t ht
  by_contra hp
  rw [if_pos (by simpa using hp)] at hzero
  cases hzero

/-- If at most one thread has the property, no other has it. -/
theorem eq_false_of_count_le {u : τ} (h : count p (before ++ t :: after) ≤ 1) (ht : p t = true)
    (hu : u ∈ before ++ after) : p u = false := by
  have hrest : count p (before ++ after) = 0 := by
    simp only [count_append, count_cons, ht, if_true] at h ⊢
    omega
  exact eq_false_of_count_eq_zero hrest u hu

/-! ## Relations with each thread -/

/-- A relation that the section establishes for the new threads, and keeps for the
others, holds for all. -/
theorem forall_replace {P Q : τ → Prop} (h : ∀ u ∈ before ++ t :: after, P u)
    (hkeep : ∀ u ∈ before ++ after, P u → Q u) (hnew : ∀ u ∈ ts, Q u) :
    ∀ u ∈ before ++ ts ++ after, Q u := by
  intro u hu
  simp only [List.mem_append] at hu
  rcases hu with (hu | hu) | hu
  · exact hkeep u (by simp [hu]) (h u (by simp [hu]))
  · exact hnew u hu
  · exact hkeep u (by simp [hu]) (h u (by simp [hu]))

end StreamHive.Verified.Threads
