import Mathlib.Logic.Function.Iterate
import Mathlib.Order.Basic

/-! While loops over a total body. A loop is run with fuel; enough fuel gives
the same state as any larger amount, and no amount of fuel ends a loop whose
condition is kept true by an invariant. -/

universe u

namespace Loop
variable {σ : Type u}

/-- The state at which `cond` first fails, `none` when the fuel does not reach it. -/
def run (cond : σ → Bool) (body : σ → σ) : (fuel : Nat) → σ → Option σ
  | 0, s => if cond s then none else some s
  | fuel + 1, s => if cond s then run cond body fuel (body s) else some s

/-- `t` is the state at the start of some iteration of the loop entered at `s`. -/
inductive Visits (cond : σ → Bool) (body : σ → σ) (s : σ) : σ → Prop where
  | entry : Visits cond body s s
  | next {t} : Visits cond body s t → cond t = true → Visits cond body s (body t)

variable {cond : σ → Bool} {body : σ → σ}

theorem run_of_exit {s : σ} (exit : cond s = false) (fuel : Nat) :
    run cond body fuel s = some s := by
  cases fuel <;> simp [run, exit]

theorem run_succ {s : σ} (enter : cond s = true) (fuel : Nat) :
    run cond body (fuel + 1) s = run cond body fuel (body s) := by
  simp [run, enter]

theorem run_mono {s t : σ} {fuel more : Nat} (h : run cond body fuel s = some t)
    (le : fuel ≤ more) : run cond body more s = some t := by
  induction fuel generalizing s more with
  | zero =>
    cases hc : cond s with
    | true => simp [run, hc] at h
    | false =>
      rw [run_of_exit hc] at h ⊢
      exact h
  | succ fuel ih =>
    cases hc : cond s with
    | false =>
      rw [run_of_exit hc] at h ⊢
      exact h
    | true =>
      obtain ⟨more, rfl⟩ : ∃ n, more = n + 1 := ⟨more - 1, by omega⟩
      rw [run_succ hc] at h ⊢
      exact ih h (by omega)

theorem run_visits {s t : σ} {fuel : Nat} (h : run cond body fuel s = some t) :
    Visits cond body s t ∧ cond t = false := by
  suffices general : ∀ r, Visits cond body s r → run cond body fuel r = some t →
      Visits cond body s t ∧ cond t = false from general s .entry h
  clear h
  induction fuel with
  | zero =>
    intro r visited h
    cases hc : cond r with
    | true => simp [run, hc] at h
    | false =>
      rw [run_of_exit hc] at h
      cases h
      exact ⟨visited, hc⟩
  | succ fuel ih =>
    intro r visited h
    cases hc : cond r with
    | true =>
      rw [run_succ hc] at h
      exact ih _ (visited.next hc) h
    | false =>
      rw [run_of_exit hc] at h
      cases h
      exact ⟨visited, hc⟩

/-- Invariant rule: what the body keeps while the condition holds is true at every iteration. -/
theorem Visits.invariant {P : σ → Prop} {s t : σ} (visited : Visits cond body s t) (start : P s)
    (keep : ∀ r, P r → cond r = true → P (body r)) : P t := by
  induction visited with
  | entry => exact start
  | next _ enter ih => exact keep _ ih enter

/-- Variant rule: a measure that every iteration lowers bounds the fuel. -/
theorem run_of_variant {P : σ → Prop} (measure : σ → Nat)
    (keep : ∀ r, P r → cond r = true → P (body r) ∧ measure (body r) < measure r)
    {s : σ} (start : P s) {fuel : Nat} (enough : measure s ≤ fuel) :
    ∃ t, run cond body fuel s = some t ∧ P t := by
  induction fuel generalizing s with
  | zero =>
    cases hc : cond s with
    | true => have := (keep s start hc).2; omega
    | false => exact ⟨s, run_of_exit hc 0, start⟩
  | succ fuel ih =>
    cases hc : cond s with
    | false => exact ⟨s, run_of_exit hc _, start⟩
    | true =>
      obtain ⟨kept, lower⟩ := keep s start hc
      rw [run_succ hc]
      exact ih kept (by omega)

/-- Divergence rule: a loop that stays inside a set where its condition holds never ends. -/
theorem run_eq_none {P : σ → Prop} (stay : ∀ r, P r → cond r = true ∧ P (body r)) {s : σ}
    (start : P s) (fuel : Nat) : run cond body fuel s = none := by
  induction fuel generalizing s with
  | zero => simp [run, (stay s start).1]
  | succ fuel ih => rw [run_succ (stay s start).1, ih (stay s start).2]

end Loop
