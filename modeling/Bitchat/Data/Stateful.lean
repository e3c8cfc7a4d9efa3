import Mathlib.Logic.Basic
import Mathlib.Tactic.Common

/-! Computations that may raise. A raised exception keeps the state reached when
it was raised, as an exception in a method keeps the fields it has assigned. -/

universe u

namespace Stateful
variable {ε σ τ α β : Type u}

/-- Run on one field of a larger state. -/
def focus (get : σ → τ) (put : τ → σ → σ) (x : EStateM ε τ α) : EStateM ε σ α := fun s =>
  match x (get s) with
  | .ok a t => .ok a (put t s)
  | .error e t => .error e (put t s)

/-- Change the exception that is raised. -/
def mapError (f : ε → ε) (x : EStateM ε σ α) : EStateM ε σ α := fun s =>
  match x s with
  | .ok a t => .ok a t
  | .error e t => .error (f e) t

/-- Change the state when an exception is raised, and raise it on. -/
def onError (f : σ → σ) (x : EStateM ε σ α) : EStateM ε σ α := fun s =>
  match x s with
  | .ok a t => .ok a t
  | .error e t => .error e (f t)

/-- A computation without state. -/
def lift : Except ε α → EStateM ε σ α
  | .ok a => fun s => .ok a s
  | .error e => fun s => .error e s

/-- The value or the exception, and the state in either case. -/
def outcome (x : EStateM ε σ α) (s : σ) : Except ε α × σ :=
  match x s with
  | .ok a t => (.ok a, t)
  | .error e t => (.error e, t)

variable {s t u : σ} {a : α} {b : β} {e : ε}

@[simp] theorem lift_ok (a : α) (s : σ) : (lift (.ok a) : EStateM ε σ α) s = .ok a s := rfl

@[simp] theorem lift_error (e : ε) (s : σ) : (lift (.error e) : EStateM ε σ α) s = .error e s := rfl

@[simp] theorem pure_apply (a : α) (s : σ) : (pure a : EStateM ε σ α) s = .ok a s := rfl

@[simp] theorem throw_apply (e : ε) (s : σ) : (throw e : EStateM ε σ α) s = .error e s := rfl

theorem bind_apply (x : EStateM ε σ α) (f : α → EStateM ε σ β) (s : σ) :
    (x >>= f) s = match x s with
      | .ok a t => f a t
      | .error e t => .error e t := rfl

theorem if_apply (p : Prop) [Decidable p] (x y : EStateM ε σ α) (s : σ) :
    (if p then x else y) s = if p then x s else y s := by
  split <;> rfl

theorem get_bind (f : σ → EStateM ε σ β) (s : σ) : (get >>= f) s = f s s := rfl

theorem set_bind (t : σ) (f : PUnit → EStateM ε σ β) (s : σ) : (set t >>= f) s = f ⟨⟩ t := rfl

theorem modify_bind (g : σ → σ) (f : PUnit → EStateM ε σ β) (s : σ) :
    (modify g >>= f) s = f ⟨⟩ (g s) := rfl

theorem bind_ok {x : EStateM ε σ α} {f : α → EStateM ε σ β} (first : x s = .ok a t) :
    (x >>= f) s = f a t := by
  rw [bind_apply, first]

theorem bind_error {x : EStateM ε σ α} {f : α → EStateM ε σ β} (first : x s = .error e t) :
    (x >>= f) s = .error e t := by
  rw [bind_apply, first]

/-- A sequence returns exactly when both of its parts do. -/
theorem bind_eq_ok {x : EStateM ε σ α} {f : α → EStateM ε σ β} :
    (x >>= f) s = .ok b u ↔ ∃ a t, x s = .ok a t ∧ f a t = .ok b u := by
  rw [bind_apply]
  cases x s <;> simp

theorem foldlM_nil {f : α → β → EStateM ε σ α} : [].foldlM f a s = .ok a s := rfl

theorem foldlM_cons_eq_ok {f : α → β → EStateM ε σ α} {rest : List β} {c : α} :
    (b :: rest).foldlM f a s = .ok c t ↔
      ∃ d u, f a b s = .ok d u ∧ rest.foldlM f d u = .ok c t := by
  rw [List.foldlM_cons, bind_eq_ok]

theorem outcome_eq_ok {x : EStateM ε σ α} : outcome x s = (.ok a, t) ↔ x s = .ok a t := by
  unfold outcome
  cases x s <;> simp

theorem outcome_eq_error {x : EStateM ε σ α} : outcome x s = (.error e, t) ↔ x s = .error e t := by
  unfold outcome
  cases x s <;> simp

theorem mapError_eq_ok {f : ε → ε} {x : EStateM ε σ α} :
    mapError f x s = .ok a t ↔ x s = .ok a t := by
  unfold mapError
  cases x s <;> simp

theorem onError_eq_ok {f : σ → σ} {x : EStateM ε σ α} :
    onError f x s = .ok a t ↔ x s = .ok a t := by
  unfold onError
  cases x s <;> simp

/-- A call that raises ends in the changed state of the call under it. -/
theorem onError_eq_error {f : σ → σ} {x : EStateM ε σ α} :
    onError f x s = .error e t ↔ ∃ u, x s = .error e u ∧ t = f u := by
  unfold onError
  cases x s <;> simp [and_comm, eq_comm]

theorem focus_eq_ok {get : σ → τ} {put : τ → σ → σ} {x : EStateM ε τ α} :
    focus get put x s = .ok a t ↔ ∃ inner, x (get s) = .ok a inner ∧ t = put inner s := by
  unfold focus
  cases x (get s) <;> simp [and_comm, eq_comm]

theorem outcome_congr {x y : EStateM ε σ α} (same : x s = y s) : outcome x s = outcome y s := by
  simp only [outcome, same]

theorem outcome_focus {get : σ → τ} {put : τ → σ → σ} (x : EStateM ε τ α) (s : σ) :
    (outcome (focus get put x) s).2 = put (outcome x (get s)).2 s := by
  unfold outcome focus
  cases x (get s) <;> rfl

/-- However the computation ends, its result and its last state satisfy `P`. -/
def Ends (x : EStateM ε σ α) (s : σ) (P : Except ε α → σ → Prop) : Prop :=
  P (outcome x s).1 (outcome x s).2

section Ends
variable {x : EStateM ε σ α} {P Q : Except ε α → σ → Prop}

theorem Ends.mono (ends : Ends x s P) (weaker : ∀ r t, P r t → Q r t) : Ends x s Q :=
  weaker _ _ ends

theorem Ends.and (left : Ends x s P) (right : Ends x s Q) : Ends x s fun r t => P r t ∧ Q r t :=
  ⟨left, right⟩

theorem ends_of_ok (returned : x s = .ok a t) : Ends x s P ↔ P (.ok a) t := by
  unfold Ends
  rw [outcome_eq_ok.mpr returned]

theorem ends_of_error (raised : x s = .error e t) : Ends x s P ↔ P (.error e) t := by
  unfold Ends
  rw [outcome_eq_error.mpr raised]

/-- Two computations that agree, each from its own state, end alike. -/
theorem ends_congr {y : EStateM ε σ α} (same : x s = y t) : Ends x s P ↔ Ends y t P := by
  unfold Ends outcome
  rw [same]

theorem ends_bind {f : α → EStateM ε σ β} {P : Except ε β → σ → Prop} :
    Ends (x >>= f) s P ↔ Ends x s fun r t => match r with
      | .ok a => Ends (f a) t P
      | .error e => P (.error e) t := by
  unfold Ends outcome
  rw [bind_apply]
  cases x s <;> rfl

theorem ends_get_bind {f : σ → EStateM ε σ α} : Ends (get >>= f) s P ↔ Ends (f s) s P := Iff.rfl

theorem ends_modify_bind {g : σ → σ} {f : PUnit → EStateM ε σ α} :
    Ends (modify g >>= f) s P ↔ Ends (f ⟨⟩) (g s) P := Iff.rfl

theorem ends_ite {p : Prop} [Decidable p] {y : EStateM ε σ α} :
    Ends (if p then x else y) s P ↔ (p → Ends x s P) ∧ (¬ p → Ends y s P) := by
  split <;> simp [*]

end Ends

/-- Whatever the outcome, the value of `f` at the state is the same as before. -/
def Keeps (f : σ → τ) (x : EStateM ε σ α) : Prop := ∀ s, f (outcome x s).2 = f s

section Keeps
variable {f : σ → τ} {x : EStateM ε σ α} {next : α → EStateM ε σ β}

theorem Keeps.ok (keeps : Keeps f x) (returned : x s = .ok a t) : f t = f s := by
  have kept := keeps s
  rwa [outcome_eq_ok.mpr returned] at kept

theorem Keeps.error (keeps : Keeps f x) (raised : x s = .error e t) : f t = f s := by
  have kept := keeps s
  rwa [outcome_eq_error.mpr raised] at kept

theorem keeps_pure (a : α) : Keeps f (pure a : EStateM ε σ α) := fun _ => rfl

theorem keeps_throw (e : ε) : Keeps f (throw e : EStateM ε σ α) := fun _ => rfl

theorem Keeps.bind (first : Keeps f x) (rest : ∀ a, Keeps f (next a)) : Keeps f (x >>= next) := by
  intro s
  unfold outcome
  rw [bind_apply]
  cases result : x s with
  | ok a t => exact (rest a t).trans (first.ok result)
  | error e t => exact first.error result

theorem keeps_get_bind {next : σ → EStateM ε σ β} (rest : ∀ s, Keeps f (next s)) :
    Keeps f (get >>= next) := fun s => rest s s

theorem Keeps.ite {p : Prop} [Decidable p] {y : EStateM ε σ α} (left : Keeps f x)
    (right : Keeps f y) : Keeps f (if p then x else y) := by
  split
  · exact left
  · exact right

theorem Keeps.onError {g : σ → σ} (keeps : Keeps f x) (frame : ∀ s, f (g s) = f s) :
    Keeps f (onError g x) := by
  intro s
  unfold outcome Stateful.onError
  cases result : x s with
  | ok a t => exact keeps.ok result
  | error e t => exact (frame t).trans (keeps.error result)

end Keeps
end Stateful
