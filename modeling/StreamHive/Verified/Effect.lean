import Mathlib.Init

/-!
# Fallible stateful computations that keep their state on failure

A systems program that returns an error has usually changed something first:
a failed write leaves bytes behind, a failed installation may have replaced one
file of two.  The computations of this package are therefore `EStateM`
programs, whose failing results carry the state reached when they failed.

This module supplies the rules by which such programs are verified.  The
judgement `Triple P x Q E` says that from every state satisfying `P` the
program either returns a value and a state related by `Q`, or fails with an
error and a state related by `E`.  Each programming construct has one rule, so
a specification is proved by following the program text.

## Main results

* `Triple.bind` — sequencing; the failure postcondition is shared by both
  halves, which is what makes "an error leaves the state unchanged" a
  one-predicate specification.
* `Triple.raiseIf`, `Triple.attempt` — guards and embedded pure computations.
* `forEach_triple` — the invariant rule for a loop over a list.
-/

namespace StreamHive.Verified.Effect

variable {ε σ τ α β : Type} {s s' : σ} {a : α} {e : ε}

/-! ## Program constructs -/

/-- Fail with `e` when the condition holds; otherwise continue. -/
def raiseIf (c : Prop) [Decidable c] (e : ε) : EStateM ε σ Unit :=
  if c then throw e else pure ()

/-- Run a pure fallible computation; it does not touch the state. -/
def attempt (x : Except ε α) : EStateM ε σ α :=
  match x with
  | .ok a => pure a
  | .error e => throw e

/-- Run a program on one component of a larger state. -/
def zoom (get : σ → τ) (set : σ → τ → σ) (x : EStateM ε τ α) : EStateM ε σ α :=
  fun s =>
    match x (get s) with
    | .ok a t => .ok a (set s t)
    | .error e t => .error e (set s t)

/-- Deferred cleanup: the state is tidied only when the program fails. -/
def onError (cleanup : ε → σ → σ) (x : EStateM ε σ α) : EStateM ε σ α :=
  fun s =>
    match x s with
    | .ok a s' => .ok a s'
    | .error e s' => .error e (cleanup e s')

/-- Fail with another error where the program fails. -/
def rethrow {ε' : Type} (f : ε → ε') (x : EStateM ε σ α) : EStateM ε' σ α :=
  fun s =>
    match x s with
    | .ok a s' => .ok a s'
    | .error e s' => .error (f e) s'

/-- Run for the effect on the state; a failure is not reported. -/
def ignoring {ε' : Type} (x : EStateM ε σ α) : EStateM ε' σ Unit :=
  fun s =>
    match x s with
    | .ok _ s' => .ok () s'
    | .error _ s' => .ok () s'

/-- Run a body for every element of a list, with its position. -/
def forEach (body : Nat → α → EStateM ε σ Unit) : Nat → List α → EStateM ε σ Unit
  | _, [] => pure ()
  | i, a :: rest => do
    body i a
    forEach body (i + 1) rest

/-- The state in which a program stopped, with or without an error. -/
def finalState : EStateM.Result ε σ α → σ
  | .ok _ s => s
  | .error _ s => s

/-- The error with which a program stopped, if any. -/
def error? : EStateM.Result ε σ α → Option ε
  | .ok _ _ => none
  | .error e _ => some e

/-- The value that a program returned, if it did. -/
def value? : EStateM.Result ε σ α → Option α
  | .ok a _ => some a
  | .error _ _ => none

/-- The result without its value. -/
def discard : EStateM.Result ε σ α → EStateM.Result ε σ Unit
  | .ok _ s => .ok () s
  | .error e s => .error e s

/-! ## The judgement -/

/-- From every state satisfying `P`, the program returns within `Q` or fails
within `E`. -/
def Triple (P : σ → Prop) (x : EStateM ε σ α) (Q : α → σ → Prop)
    (E : ε → σ → Prop) : Prop :=
  ∀ s, P s →
    match x s with
    | .ok a s' => Q a s'
    | .error e s' => E e s'

/-- The program keeps an invariant, whether it returns or fails. -/
abbrev Preserves (I : σ → Prop) (x : EStateM ε σ α) : Prop := Triple I x (fun _ => I) fun _ => I

variable {x : EStateM ε σ α}

section Rules

variable {P P' : σ → Prop} {Q Q' : α → σ → Prop} {E E' : ε → σ → Prop}

theorem Triple.ok (h : Triple P x Q E) (hs : P s) (hx : x s = .ok a s') :
    Q a s' := by
  have := h s hs
  rwa [hx] at this

theorem Triple.weaken (h : Triple P x Q E) (hP : ∀ s, P' s → P s) (hQ : ∀ a s, Q a s → Q' a s)
    (hE : ∀ e s, E e s → E' e s) : Triple P' x Q' E' := by
  intro s hs
  have hrun := h s (hP s hs)
  cases hx : x s with
  | ok a s' =>
    rw [hx] at hrun
    exact hQ a s' hrun
  | error e s' =>
    rw [hx] at hrun
    exact hE e s' hrun

theorem Triple.pure (h : ∀ s, P s → Q a s) : Triple P (Pure.pure a : EStateM ε σ α) Q E :=
  fun s hs => h s hs

theorem Triple.throw (h : ∀ s, P s → E e s) :
    Triple P (MonadExcept.throw e : EStateM ε σ α) Q E :=
  fun s hs => h s hs

/-- Sequencing: the second program starts from the postcondition of the
first, and both may fail within the same `E`. -/
theorem Triple.bind {x : EStateM ε σ β} {f : β → EStateM ε σ α}
    {R : β → σ → Prop} (hx : Triple P x R E) (hf : ∀ b, Triple (R b) (f b) Q E) :
    Triple P (x >>= f) Q E := by
  intro s hs
  have hrun := hx s hs
  change match EStateM.bind x f s with
    | .ok a s' => Q a s'
    | .error e s' => E e s'
  unfold EStateM.bind
  cases h : x s with
  | ok b s' =>
    rw [h] at hrun
    exact hf b s' hrun
  | error e s' =>
    rw [h] at hrun
    exact hrun

theorem Triple.raiseIf {P : σ → Prop} {E : ε → σ → Prop} {c : Prop} [Decidable c]
    (h : ∀ s, P s → c → E e s) : Triple P (raiseIf c e) (fun _ s => P s ∧ ¬c) E := by
  intro s hs
  by_cases hc : c
  · simp only [Effect.raiseIf, if_pos hc]
    exact h s hs hc
  · simp only [Effect.raiseIf, if_neg hc]
    exact ⟨hs, hc⟩

theorem Triple.attempt {x : Except ε α} (h : ∀ s e, P s → x = .error e → E e s) :
    Triple P (attempt x) (fun a s => P s ∧ x = .ok a) E := by
  intro s hs
  cases hx : x with
  | ok a => exact ⟨hs, rfl⟩
  | error e => exact h s e hs hx

theorem Triple.modify {g : σ → σ} {R : σ → Prop} (h : ∀ s, P s → R (g s)) :
    Triple P (modify g : EStateM ε σ Unit) (fun _ s => R s) E :=
  fun s hs => h s hs

/-- A program on one component: its triple starts from that component and ends in
the larger state with the component put back. -/
theorem Triple.zoom {get : σ → τ} {set : σ → τ → σ} {x : EStateM ε τ α}
    (hx : ∀ s, P s → Triple (fun t => t = get s) x (fun a t => Q a (set s t))
      (fun e t => E e (set s t))) : Triple P (zoom get set x) Q E := by
  intro s hs
  have hrun := hx s hs (get s) rfl
  unfold Effect.zoom
  cases hxs : x (get s) with
  | ok a t | error e t =>
    rw [hxs] at hrun
    exact hrun

/-- What holds after a return and after a failure holds of the final state. -/
theorem Triple.finalState {R : σ → Prop}
    (h : Triple P x (fun _ s => R s) (fun _ s => R s)) (hs : P s) : R (finalState (x s)) := by
  have hrun := h s hs
  cases hx : x s with
  | ok a s' | error e s' =>
    rw [hx] at hrun
    exact hrun

theorem Triple.of_finalState {R : σ → Prop} (h : ∀ s, P s → R (Effect.finalState (x s))) :
    Triple P x (fun _ s => R s) (fun _ s => R s) := by
  intro s hs
  have hfinal := h s hs
  cases hx : x s with
  | ok a s' | error e s' =>
    rw [hx] at hfinal
    exact hfinal

/-- A fact that does not depend on the state becomes a hypothesis. -/
theorem Triple.fact {p : Prop} (h : p → Triple P x Q E) :
    Triple (fun s => P s ∧ p) x Q E :=
  fun s hs => h hs.2 s hs.1

/-- A program whose first action reads the state. -/
theorem Triple.get_bind {f : σ → EStateM ε σ α}
    (hf : ∀ s, P s → Triple (fun t => t = s) (f s) Q E) :
    Triple P (MonadState.get >>= f) Q E :=
  fun s hs => hf s hs s rfl

/-- The invariant rule for a loop: the body at position `i` carries the
invariant from the elements still to do to the elements after it. -/
theorem forEach_triple {body : Nat → α → EStateM ε σ Unit}
    {I : List α → σ → Prop} {E : ε → σ → Prop}
    (hbody : ∀ i a rest, Triple (I (a :: rest)) (body i a)
      (fun _ s => I rest s) E) :
    ∀ (i : Nat) (as : List α),
      Triple (I as) (forEach body i as) (fun _ s => I [] s) E := by
  intro i as
  induction as generalizing i with
  | nil => exact Triple.pure fun _ hs => hs
  | cons a rest ih => exact Triple.bind (hbody i a rest) fun _ => ih (i + 1)

end Rules

/-! ## Running a program forwards -/

theorem run_bind_ok {x : EStateM ε σ β} {f : β → EStateM ε σ α} {b : β} (h : x s = .ok b s') :
    (x >>= f) s = f b s' := by
  change EStateM.bind x f s = _
  unfold EStateM.bind
  rw [h]

theorem run_bind_get {f : σ → EStateM ε σ α} : ((get : EStateM ε σ σ) >>= f) s = f s s := rfl

theorem run_bind_error {x : EStateM ε σ β} {f : β → EStateM ε σ α} (h : x s = .error e s') :
    (x >>= f) s = .error e s' := by
  change EStateM.bind x f s = _
  unfold EStateM.bind
  rw [h]

theorem run_raiseIf {c : Prop} [Decidable c] (h : ¬c) :
    (raiseIf c e : EStateM ε σ Unit) s = .ok () s := by
  unfold raiseIf
  rw [if_neg h]
  rfl

theorem run_raiseIf_error {c : Prop} [Decidable c] (h : c) :
    (raiseIf c e : EStateM ε σ Unit) s = .error e s := by
  unfold raiseIf
  rw [if_pos h]
  rfl

theorem run_attempt {x : Except ε α} (h : x = .ok a) :
    (attempt x : EStateM ε σ α) s = .ok a s := by
  rw [h]
  rfl

theorem run_attempt_error {x : Except ε α} (h : x = .error e) :
    (attempt x : EStateM ε σ α) s = .error e s := by
  rw [h]
  rfl

theorem run_zoom {get : σ → τ} {set : σ → τ → σ} {x : EStateM ε τ α} {t : τ}
    (h : x (get s) = .ok a t) : zoom get set x s = .ok a (set s t) := by
  unfold zoom
  rw [h]

theorem run_zoom_error {get : σ → τ} {set : σ → τ → σ} {x : EStateM ε τ α} {t : τ}
    (h : x (get s) = .error e t) : zoom get set x s = .error e (set s t) := by
  unfold zoom
  rw [h]

theorem run_onError {cleanup : ε → σ → σ} (h : x s = .ok a s') :
    onError cleanup x s = .ok a s' := by
  unfold onError
  rw [h]

theorem run_onError_error {cleanup : ε → σ → σ} (h : x s = .error e s') :
    onError cleanup x s = .error e (cleanup e s') := by
  unfold onError
  rw [h]

theorem run_rethrow {ε' : Type} {f : ε → ε'} (h : x s = .ok a s') :
    rethrow f x s = .ok a s' := by
  unfold rethrow
  rw [h]

theorem run_rethrow_error {ε' : Type} {f : ε → ε'} (h : x s = .error e s') :
    rethrow f x s = .error (f e) s' := by
  unfold rethrow
  rw [h]

theorem run_ignoring {ε' : Type} :
    (ignoring x : EStateM ε' σ Unit) s = .ok () (finalState (x s)) := by
  unfold ignoring
  cases x s with
  | ok a s' | error e s' => rfl

/-- A loop whose body leaves the state alone. -/
theorem run_forEach {body : Nat → α → EStateM ε σ Unit} {as : List α}
    (h : ∀ i, ∀ a ∈ as, body i a s = .ok () s) : ∀ i, forEach body i as s = .ok () s := by
  induction as with
  | nil => exact fun i => rfl
  | cons a rest ih =>
    intro i
    exact (run_bind_ok (h i a List.mem_cons_self)).trans
      (ih (fun i b hb => h i b (List.mem_cons_of_mem _ hb)) (i + 1))

theorem rethrow_ok {f : ε → ε} :
    rethrow f x s = .ok a s' ↔ x s = .ok a s' := by
  unfold rethrow
  cases x s with
  | ok b t => exact Iff.rfl
  | error e t => exact ⟨nofun, nofun⟩

/-! ## Inversion of results -/

theorem except_bind_ok {x : Except ε β} {f : β → Except ε α} :
    (x >>= f) = .ok a ↔ ∃ b, x = .ok b ∧ f b = .ok a := by
  cases x with
  | ok b =>
    constructor
    · intro h
      exact ⟨b, rfl, h⟩
    · rintro ⟨b', hb, h⟩
      cases hb
      exact h
  | error e =>
    constructor
    · intro h
      cases h
    · rintro ⟨b, hb, _⟩
      cases hb

theorem except_ok_bind {b : β} {f : β → Except ε α} : (Except.ok b >>= f) = f b := rfl

theorem except_guard_ok {c : Prop} [Decidable c] {x : Except ε α} :
    (if c then .error e else x) = .ok a ↔ ¬c ∧ x = .ok a := by
  by_cases hc : c <;> simp [hc]

theorem except_isOk {x : Except ε α} (h : x.isOk = true) : ∃ a, x = .ok a := by
  cases x with
  | ok a => exact ⟨a, rfl⟩
  | error e => cases h

theorem except_mapError_ok {ε' : Type} {x : Except ε α} {f : ε → ε'} :
    x.mapError f = .ok a ↔ x = .ok a := by
  cases x with
  | ok b =>
    change (Except.ok b : Except ε' α) = .ok a ↔ _
    simp
  | error e =>
    change (Except.error (f e) : Except ε' α) = .ok a ↔ _
    simp

theorem ok_of_error? {x : EStateM.Result ε σ Unit} (h : error? x = none) :
    x = .ok () (finalState x) := by
  cases x with
  | ok a s => rfl
  | error e s => cases h

theorem ok_of_value? {x : EStateM.Result ε σ α} (h : value? x = some a) :
    x = .ok a (finalState x) := by
  cases x with
  | ok b s =>
    cases h
    rfl
  | error e s => cases h

theorem bind_ok {x : EStateM ε σ β} {f : β → EStateM ε σ α} {s'' : σ} :
    (x >>= f) s = .ok a s'' ↔
      ∃ b s', x s = .ok b s' ∧ f b s' = .ok a s'' := by
  change EStateM.bind x f s = _ ↔ _
  unfold EStateM.bind
  cases hx : x s with
  | ok b s' =>
    constructor
    · intro h
      exact ⟨b, s', rfl, h⟩
    · rintro ⟨b', t, hb, h⟩
      cases hb
      exact h
  | error e s' => simp

theorem raiseIf_ok {c : Prop} [Decidable c] {u : Unit} :
    (raiseIf c e : EStateM ε σ Unit) s = .ok u s' ↔ ¬c ∧ s = s' := by
  by_cases hc : c
  · simp only [raiseIf, hc, if_true, not_true, false_and, iff_false]
    intro h
    cases h
  · simp only [raiseIf, hc, if_false, not_false_eq_true, true_and]
    constructor
    · intro h
      cases h
      rfl
    · rintro rfl
      rfl

theorem attempt_ok {x : Except ε α} :
    (attempt x : EStateM ε σ α) s = .ok a s' ↔ x = .ok a ∧ s = s' := by
  cases x with
  | ok b =>
    constructor
    · intro h
      cases h
      exact ⟨rfl, rfl⟩
    · rintro ⟨h, rfl⟩
      cases h
      rfl
  | error e =>
    constructor
    · intro h
      cases h
    · rintro ⟨h, _⟩
      cases h

end StreamHive.Verified.Effect
