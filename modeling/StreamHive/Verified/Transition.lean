import Mathlib.Data.List.Basic

/-!
# Runs of a transition function

A deterministic step on states and events, the state after a list of events, and
conditions that every step of a run meets.  A property of whole runs is proved
from what one step that meets the condition preserves.

## Main results

* `run_invariant` — an invariant of the steps that meet the condition holds after
  the run;
* `exists_of_not_along` — a run that breaks the condition breaks it in some state.
-/

namespace StreamHive.Verified.Transition

variable {σ ε : Type*} {step : σ → ε → σ} {P Q : σ → ε → Prop}

/-- The state after a list of events. -/
def run (step : σ → ε → σ) (s : σ) (events : List ε) : σ := events.foldl step s

/-- Every step of the run meets the condition. -/
def Along (step : σ → ε → σ) (P : σ → ε → Prop) : σ → List ε → Prop
  | _, [] => True
  | s, e :: rest => P s e ∧ Along step P (step s e) rest

instance Along.decidable [∀ s e, Decidable (P s e)] :
    ∀ (s : σ) (events : List ε), Decidable (Along step P s events)
  | _, [] => isTrue trivial
  | s, e :: rest => @instDecidableAnd _ _ _ (Along.decidable (step s e) rest)

theorem run_append (s : σ) (before after : List ε) :
    run step s (before ++ after) = run step (run step s before) after := List.foldl_append

theorem Along.append_iff {s : σ} {before after : List ε} :
    Along step P s (before ++ after) ↔
      Along step P s before ∧ Along step P (run step s before) after := by
  induction before generalizing s with
  | nil => exact ⟨fun h => ⟨trivial, h⟩, fun h => h.2⟩
  | cons e rest ih =>
    show (P s e ∧ Along step P (step s e) (rest ++ after)) ↔
      (P s e ∧ Along step P (step s e) rest) ∧ Along step P (run step (step s e) rest) after
    rw [ih, and_assoc]

theorem along_of_forall {s : σ} {events : List ε} (h : ∀ e ∈ events, ∀ s, P s e) :
    Along step P s events := by
  induction events generalizing s with
  | nil => trivial
  | cons e rest ih =>
    exact ⟨h e (List.mem_cons_self ..) s, ih fun e' he' => h e' (List.mem_cons_of_mem _ he')⟩

theorem Along.imp {s : σ} {events : List ε} (h : ∀ s e, P s e → Q s e)
    (hP : Along step P s events) : Along step Q s events := by
  induction events generalizing s with
  | nil => trivial
  | cons e rest ih => exact ⟨h s e hP.1, ih hP.2⟩

theorem Along.and {s : σ} {events : List ε} (hP : Along step P s events)
    (hQ : Along step Q s events) : Along step (fun s e => P s e ∧ Q s e) s events := by
  induction events generalizing s with
  | nil => trivial
  | cons e rest ih => exact ⟨⟨hP.1, hQ.1⟩, ih hP.2 hQ.2⟩

/-- What every step that meets the condition preserves holds after the run. -/
theorem run_invariant {I : σ → Prop} (hstep : ∀ s e, P s e → I s → I (step s e)) {s : σ}
    {events : List ε} (h : Along step P s events) (hs : I s) : I (run step s events) := by
  induction events generalizing s with
  | nil => exact hs
  | cons e rest ih => exact ih h.2 (hstep s e h.1 hs)

/-- A run that breaks a condition breaks it in some state on the way. -/
theorem exists_of_not_along {s : σ} {events : List ε} (h : ¬ Along step P s events) :
    ∃ before e after, events = before ++ e :: after ∧ ¬ P (run step s before) e := by
  induction events generalizing s with
  | nil => exact absurd trivial h
  | cons e rest ih =>
    by_cases he : P s e
    · obtain ⟨before, e', after, hsplit, hbad⟩ := ih fun hrest => h ⟨he, hrest⟩
      exact ⟨e :: before, e', after, by rw [hsplit]; rfl, hbad⟩
    · exact ⟨[], e, rest, rfl, he⟩

end StreamHive.Verified.Transition
