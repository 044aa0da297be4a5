import Mathlib.Data.List.Induction
import Mathlib.Data.List.Sort

/-!
# Logs in ascending version order

A log is a list that is strictly ascending in a version drawn from a linear
order.  Cutting such a log at a version is the operation that compaction,
catch-up batches and prefix replay all perform, and it is the same operation
whether written as a filter, as a scan that stops at the first newer entry, or
as a prefix of what follows an earlier cut.  This module proves those forms
equal.

`upTo w`, `after w` and `within a b` select the entries with version at most
`w`, greater than `w`, and in the half-open interval `(a, b]`.

## Main results

* `takeWhile_upTo`, `dropWhile_after` — a scan that stops at the first newer
  entry selects the same entries as the filter;
* `within_append_after` — cuts compose;
* `prefix_after` — a prefix of what follows `a` is an interval that starts at
  `a`.

A `Segment` is an ascending log above a floor, with both facts as fields.  It
is what a compacted log retains: `append`, `cut` and `reset` are its only
operations.
-/

namespace StreamHive.Verified.Log

variable {R V : Type} [LinearOrder V] {v : R → V} {a b w : V} {log : List R}

/-- Strictly ascending in the version. -/
def Ascending (v : R → V) (log : List R) : Prop :=
  log.Pairwise fun a b => v a < v b

/-- The entries with version at most `w`. -/
def upTo (v : R → V) (w : V) (log : List R) : List R :=
  log.filter fun r => v r ≤ w

/-- The entries with version greater than `w`. -/
def after (v : R → V) (w : V) (log : List R) : List R :=
  log.filter fun r => w < v r

/-- The entries with version in `(a, b]`. -/
def within (v : R → V) (a b : V) (log : List R) : List R :=
  log.filter fun r => a < v r ∧ v r ≤ b

@[simp] theorem mem_upTo {r : R} : r ∈ upTo v w log ↔ r ∈ log ∧ v r ≤ w := by
  simp [upTo]

@[simp] theorem mem_after {r : R} : r ∈ after v w log ↔ r ∈ log ∧ w < v r := by
  simp [after]

/-! ## Shape -/

theorem Ascending.nil : Ascending v ([] : List R) := List.Pairwise.nil

theorem Ascending.tail {r : R} (h : Ascending v (r :: log)) :
    Ascending v log := (List.pairwise_cons.mp h).2

theorem Ascending.head_lt {r : R} (h : Ascending v (r :: log)) :
    ∀ s ∈ log, v r < v s := (List.pairwise_cons.mp h).1

theorem Ascending.all_lt {r : R} (h : Ascending v (r :: log)) (hw : w < v r) :
    ∀ s ∈ r :: log, w < v s :=
  List.forall_mem_cons.mpr ⟨hw, fun s hs => lt_trans hw (h.head_lt s hs)⟩

theorem ascending_append {ext : List R} :
    Ascending v (log ++ ext) ↔
      Ascending v log ∧ Ascending v ext ∧
        ∀ r ∈ log, ∀ s ∈ ext, v r < v s := List.pairwise_append

theorem Ascending.filter (h : Ascending v log) (p : R → Bool) :
    Ascending v (log.filter p) := List.Pairwise.filter p h

theorem Ascending.upTo (h : Ascending v log) (w : V) : Ascending v (upTo v w log) := h.filter _

theorem Ascending.after (h : Ascending v log) (w : V) : Ascending v (after v w log) := h.filter _

theorem Ascending.concat (h : Ascending v log) {r : R} (hr : ∀ s ∈ log, v s < v r) :
    Ascending v (log ++ [r]) := by
  rw [ascending_append]
  refine ⟨h, List.pairwise_singleton _ _, ?_⟩
  intro s hs t ht
  rw [List.mem_singleton.mp ht]
  exact hr s hs

/-! ## Cuts -/

theorem upTo_eq_self (h : ∀ r ∈ log, v r ≤ w) : upTo v w log = log := by
  rw [upTo, List.filter_eq_self]
  intro r hr
  simpa using h r hr

theorem after_eq_self (h : ∀ r ∈ log, w < v r) : after v w log = log := by
  rw [after, List.filter_eq_self]
  intro r hr
  simpa using h r hr

theorem after_eq_nil (h : ∀ r ∈ log, v r ≤ w) : after v w log = [] := by
  rw [after, List.filter_eq_nil_iff]
  intro r hr
  simpa using h r hr

theorem upTo_eq_nil (h : ∀ r ∈ log, w < v r) : upTo v w log = [] := by
  rw [upTo, List.filter_eq_nil_iff]
  intro r hr
  simpa using h r hr

theorem upTo_append_of_lt {ext : List R} (h : ∀ r ∈ ext, w < v r) :
    upTo v w (log ++ ext) = upTo v w log := by
  have hext : upTo v w ext = [] := upTo_eq_nil h
  simp only [upTo, List.filter_append] at hext ⊢
  rw [hext, List.append_nil]

/-- A scan that keeps entries until the first one newer than `w` keeps exactly
the entries up to `w`. -/
theorem takeWhile_upTo (h : Ascending v log) (w : V) :
    log.takeWhile (fun r => v r ≤ w) = upTo v w log := by
  induction log with
  | nil => rfl
  | cons r log ih =>
    by_cases hr : v r ≤ w
    · simp only [upTo, List.takeWhile_cons, List.filter_cons, hr, decide_true,
        if_true]
      rw [ih h.tail]
      rfl
    · have hlt := h.all_lt (not_le.mp hr)
      rw [upTo_eq_nil hlt]
      simp [hr]

theorem dropWhile_after (h : Ascending v log) (w : V) :
    log.dropWhile (fun r => v r ≤ w) = after v w log := by
  induction log with
  | nil => rfl
  | cons r log ih =>
    by_cases hr : v r ≤ w
    · simp only [after, List.dropWhile_cons, List.filter_cons, hr, decide_true,
        not_lt.mpr hr, decide_false, if_true]
      rw [ih h.tail]
      rfl
    · have hlt := h.all_lt (not_le.mp hr)
      rw [after_eq_self hlt]
      simp [hr]

theorem upTo_append_after (h : Ascending v log) (w : V) :
    upTo v w log ++ after v w log = log := by
  rw [← takeWhile_upTo h, ← dropWhile_after h, List.takeWhile_append_dropWhile]

theorem upTo_after (a b : V) (log : List R) :
    upTo v b (after v a log) = within v a b log := by
  simp only [within, upTo, after, List.filter_filter]
  congr 1
  funext r
  grind

theorem after_after (log : List R) (hab : a ≤ b) : after v b (after v a log) = after v b log := by
  simp only [after, List.filter_filter]
  congr 1
  funext r
  grind

theorem within_append_after (h : Ascending v log) (hab : a ≤ b) :
    within v a b log ++ after v b log = after v a log := by
  rw [← upTo_after, ← after_after log hab]
  exact upTo_append_after (h.after a) b

/-! ## Ends of logs and prefixes -/

/-- The version a log ends at, or `w` when the log is empty. -/
def lastVersion (v : R → V) (w : V) (log : List R) : V :=
  (log.getLast?.map v).getD w

omit [LinearOrder V] in
@[simp] theorem lastVersion_nil (w : V) : lastVersion v w ([] : List R) = w := rfl

omit [LinearOrder V] in
@[simp] theorem lastVersion_concat (w : V) (log : List R) (r : R) :
    lastVersion v w (log ++ [r]) = v r := by
  simp [lastVersion]

omit [LinearOrder V] in
theorem lastVersion_append (w : V) (log ext : List R) :
    lastVersion v w (log ++ ext) = lastVersion v (lastVersion v w log) ext := by
  rcases List.eq_nil_or_concat ext with rfl | ⟨init, r, rfl⟩
  · simp
  · rw [List.concat_eq_append, ← List.append_assoc, lastVersion_concat,
      lastVersion_concat]

/-- Every entry of a log above `w` is at most the version it ends at. -/
theorem le_lastVersion (h : Ascending v log) (w : V) : ∀ r ∈ log, v r ≤ lastVersion v w log := by
  rcases List.eq_nil_or_concat log with rfl | ⟨init, s, rfl⟩
  · intro r hr
    cases hr
  · rw [List.concat_eq_append, ascending_append] at h
    intro r hr
    rw [List.concat_eq_append, lastVersion_concat]
    rw [List.concat_eq_append, List.mem_append, List.mem_singleton] at hr
    rcases hr with hr | rfl
    · exact le_of_lt (h.2.2 r hr s (by simp))
    · exact le_refl _

theorem base_le_lastVersion (h : ∀ r ∈ log, w < v r) : w ≤ lastVersion v w log := by
  rcases List.eq_nil_or_concat log with rfl | ⟨init, s, rfl⟩
  · exact le_refl _
  · rw [List.concat_eq_append, lastVersion_concat]
    exact le_of_lt (h s (by simp))

theorem base_lt_lastVersion (h : ∀ r ∈ log, w < v r) (hne : log ≠ []) :
    w < lastVersion v w log := by
  rcases List.eq_nil_or_concat log with rfl | ⟨init, s, rfl⟩
  · exact absurd rfl hne
  · rw [List.concat_eq_append, lastVersion_concat]
    exact h s (by simp)

omit [LinearOrder V] in
theorem exists_mem_lastVersion (w : V) (hne : log ≠ []) :
    ∃ r ∈ log, v r = lastVersion v w log := by
  rcases List.eq_nil_or_concat log with rfl | ⟨init, s, rfl⟩
  · exact absurd rfl hne
  · exact ⟨s, by simp, by rw [List.concat_eq_append, lastVersion_concat]⟩

/-- A proper prefix ends before the log does. -/
theorem lastVersion_take_lt (h : Ascending v log) (habove : ∀ r ∈ log, w < v r) {n : Nat}
    (hn : n < log.length) : lastVersion v w (log.take n) < lastVersion v w log := by
  have hsplit : log.take n ++ log.drop n = log := List.take_append_drop n log
  have hasc := ascending_append.mp (hsplit.symm ▸ h)
  have hrest : ∀ r ∈ log.drop n, lastVersion v w (log.take n) < v r := by
    intro r hr
    by_cases hnil : log.take n = []
    · rw [hnil]
      exact habove r (List.mem_of_mem_drop hr)
    · obtain ⟨s, hs, hlast⟩ := exists_mem_lastVersion (v := v) w hnil
      rw [← hlast]
      exact hasc.2.2 s hs r hr
  have hne : log.drop n ≠ [] := by
    intro hnil
    have hlen := congrArg List.length hnil
    rw [List.length_drop, List.length_nil] at hlen
    omega
  calc lastVersion v w (log.take n)
      < lastVersion v (lastVersion v w (log.take n)) (log.drop n) :=
        base_lt_lastVersion hrest hne
    _ = lastVersion v w log := by rw [← lastVersion_append, hsplit]

/-- A prefix ends at or before `b` exactly if it is no longer than the cut at `b`. -/
theorem lastVersion_take_le (h : Ascending v log) (hwb : w ≤ b) {n : Nat} (hn : n ≤ log.length) :
    lastVersion v w (log.take n) ≤ b ↔ n ≤ (upTo v b log).length := by
  have hsplit := upTo_append_after h b
  constructor
  · intro hle
    by_contra hlong
    have htake : log.take n =
        upTo v b log ++ (after v b log).take (n - (upTo v b log).length) := by
      rw [← hsplit, List.take_append, hsplit, List.take_of_length_le (by omega)]
    have hlen := congrArg List.length htake
    rw [List.length_take, List.length_append, min_eq_left hn] at hlen
    obtain ⟨r, hr⟩ := List.exists_mem_of_length_pos
      (show 0 < ((after v b log).take (n - (upTo v b log).length)).length by omega)
    have hnew : b < v r := (mem_after.mp (List.mem_of_mem_take hr)).2
    have hasc : Ascending v (log.take n) := List.Pairwise.sublist (List.take_sublist n log) h
    have hlast : v r ≤ lastVersion v w (log.take n) := by
      refine le_lastVersion hasc w r ?_
      rw [htake]
      exact List.mem_append_right _ hr
    exact absurd (hlast.trans hle) (not_le.mpr hnew)
  · intro hshort
    by_cases hnil : log.take n = []
    · rw [hnil, lastVersion_nil]
      exact hwb
    · obtain ⟨r, hr, hlast⟩ := exists_mem_lastVersion (v := v) w hnil
      rw [← hsplit, List.take_append_of_le_length hshort] at hr
      rw [← hlast]
      exact (mem_upTo.mp (List.mem_of_mem_take hr)).2

/-- A prefix of what follows `a` is the interval from `a` to the version the
prefix ends at. -/
theorem prefix_after {p : List R} (h : Ascending v log) (hp : p <+: after v a log) :
    p = within v a (lastVersion v a p) log := by
  obtain ⟨rest, hrest⟩ := hp
  have hasc : Ascending v (p ++ rest) := by
    rw [hrest]
    exact h.after a
  obtain ⟨hpasc, _, hcross⟩ := ascending_append.mp hasc
  have habove : ∀ r ∈ p ++ rest, a < v r := by
    intro r hr
    rw [hrest, mem_after] at hr
    exact hr.2
  have hsplit : within v a (lastVersion v a p) log =
      upTo v (lastVersion v a p) (p ++ rest) := by
    rw [hrest]
    simp only [within, upTo, after, List.filter_filter]
    congr 1
    funext r
    grind
  have hrestLt : ∀ r ∈ rest, lastVersion v a p < v r := by
    intro r hr
    by_cases hne : p = []
    · subst hne
      exact habove r (by simp [hr])
    · obtain ⟨s, hs, heq⟩ := exists_mem_lastVersion a hne
      rw [← heq]
      exact hcross s hs r hr
  rw [hsplit, upTo_append_of_lt hrestLt]
  exact (upTo_eq_self (le_lastVersion hpasc a)).symm

/-- What follows a prefix of the rest of a log is the rest after the prefix's end. -/
theorem prefix_append_after {p : List R} (h : Ascending v log) (hp : p <+: after v a log) :
    p ++ after v (lastVersion v a p) log = after v a log := by
  have habove : ∀ r ∈ p, a < v r := by
    intro r hr
    exact (mem_after.mp (hp.subset hr)).2
  have hjoin := within_append_after h (base_le_lastVersion habove)
  rw [← prefix_after h hp] at hjoin
  exact hjoin

/-! ## Segments -/

/-- An ascending log whose entries are all newer than a floor. -/
structure Segment (v : R → V) where
  floor : V
  records : List R
  ascending : Ascending v records
  above : ∀ r ∈ records, floor < v r

namespace Segment

variable (s : Segment v)

/-- The version of the newest entry, or the floor when nothing is retained. -/
def last : V := lastVersion v s.floor s.records

/-- The segment that retains nothing above `w`. -/
def reset (v : R → V) (w : V) : Segment v where
  floor := w
  records := []
  ascending := Ascending.nil
  above := by simp

theorem floor_le_last : s.floor ≤ s.last :=
  base_le_lastVersion s.above

theorem le_last : ∀ r ∈ s.records, v r ≤ s.last :=
  le_lastVersion s.ascending s.floor

/-- A segment whose newest version is its floor retains nothing. -/
theorem eq_reset (h : s.last ≤ s.floor) : s = reset v s.floor := by
  have hnil : s.records = [] := by
    rw [List.eq_nil_iff_forall_not_mem]
    intro r hr
    exact absurd ((s.le_last r hr).trans h) (not_le.mpr (s.above r hr))
  obtain ⟨floor, records, ascending, above⟩ := s
  subst hnil
  rfl

/-- Add a newer entry. -/
def append (r : R) (h : s.last < v r) : Segment v where
  floor := s.floor
  records := s.records ++ [r]
  ascending := s.ascending.concat fun t ht => lt_of_le_of_lt (s.le_last t ht) h
  above := by
    intro t ht
    rcases List.mem_append.mp ht with ht | ht
    · exact s.above t ht
    · rw [List.mem_singleton.mp ht]
      exact lt_of_le_of_lt s.floor_le_last h

/-- Dropping the entries that a scan up to `w` visits leaves the entries after
`w`. -/
theorem drop_scan (w : V) :
    s.records.drop (s.records.takeWhile fun r => v r ≤ w).length =
      after v w s.records := by
  rw [← dropWhile_after s.ascending]
  have hdrop := @List.drop_left _ (s.records.takeWhile fun r => v r ≤ w)
    (s.records.dropWhile fun r => v r ≤ w)
  rwa [List.takeWhile_append_dropWhile] at hdrop

/-- Raise the floor to `w`, dropping the entries that a scan up to `w`
visits. -/
def cut (w : V) : Segment v where
  floor := w
  records := s.records.drop (s.records.takeWhile fun r => v r ≤ w).length
  ascending := by
    rw [s.drop_scan w]
    exact s.ascending.after w
  above := by
    rw [s.drop_scan w]
    intro r hr
    exact (mem_after.mp hr).2

@[simp] theorem floor_reset (w : V) : (reset v w).floor = w := rfl
@[simp] theorem records_reset (w : V) : (reset v w).records = [] := rfl
@[simp] theorem last_reset (w : V) : (reset v w).last = w := rfl

@[simp] theorem floor_append (r : R) (h : s.last < v r) :
    (s.append r h).floor = s.floor := rfl

@[simp] theorem records_append (r : R) (h : s.last < v r) :
    (s.append r h).records = s.records ++ [r] := rfl

@[simp] theorem last_append (r : R) (h : s.last < v r) :
    (s.append r h).last = v r := lastVersion_concat _ _ _

@[simp] theorem floor_cut (w : V) : (s.cut w).floor = w := rfl

theorem records_cut (w : V) :
    (s.cut w).records = after v w s.records := s.drop_scan w

/-- Cutting between floor and end does not move the end. -/
theorem last_cut (hfloor : s.floor ≤ w) (hlast : w ≤ s.last) :
    (s.cut w).last = s.last := by
  have hsplit := upTo_append_after s.ascending w
  unfold last at hlast ⊢
  rw [records_cut, floor_cut]
  by_cases hnil : after v w s.records = []
  · rw [hnil, lastVersion_nil]
    refine le_antisymm hlast ?_
    by_cases hempty : s.records = []
    · rw [hempty, lastVersion_nil]
      exact hfloor
    · obtain ⟨r, hr, heq⟩ := exists_mem_lastVersion (v := v) s.floor hempty
      rw [← heq]
      rw [hnil, List.append_nil] at hsplit
      rw [← hsplit, mem_upTo] at hr
      exact hr.2
  · rw [← hsplit, lastVersion_append, hsplit]
    obtain ⟨init, r, hr⟩ :=
      (List.eq_nil_or_concat (after v w s.records)).resolve_left hnil
    rw [hr, List.concat_eq_append, lastVersion_concat, lastVersion_concat]

/-- Every segment is built from an empty one by appending. -/
theorem induction {motive : Segment v → Prop} (reset : ∀ w, motive (reset v w))
    (append : ∀ s r (h : s.last < v r), motive s → motive (s.append r h)) :
    ∀ s, motive s := by
  rintro ⟨floor, records, hasc, habove⟩
  induction records using List.reverseRecOn with
  | nil => exact reset floor
  | append_singleton init r ih =>
    have hasc' := (ascending_append.mp hasc).1
    have habove' : ∀ t ∈ init, floor < v t := fun t ht => habove t (by simp [ht])
    have hlast : lastVersion v floor init < v r := by
      by_cases hempty : init = []
      · rw [hempty]
        exact habove r (by simp)
      · obtain ⟨t, ht, heq⟩ := exists_mem_lastVersion (v := v) floor hempty
        rw [← heq]
        exact (ascending_append.mp hasc).2.2 t ht r (by simp)
    exact append ⟨floor, init, hasc', habove'⟩ r hlast (ih hasc' habove')

end Segment

end StreamHive.Verified.Log
