import Mathlib.Logic.Relation
import Mathlib.Order.WellFounded

/-! Walks to a goal along a relation. A rank that falls on the way bounds their length, and
a rank that falls on every step excludes cycles. -/

universe u

variable {α : Type u}

/-- A walk of this many steps ends at a goal. -/
inductive ArrivesIn (step : α → α → Prop) (goal : α → Prop) : Nat → α → Prop where
  | here {a} : goal a → ArrivesIn step goal 0 a
  | onward {n a b} : step a b → ArrivesIn step goal n b → ArrivesIn step goal (n + 1) a

variable {step : α → α → Prop} {goal : α → Prop} {rank : α → Nat}

theorem ArrivesIn.of_rank {P : α → Prop}
    (descend : ∀ a, P a → ∃ b, step a b ∧ (goal b ∧ 0 < rank a ∨ P b ∧ rank b < rank a)) (a : α) (met : P a) :
    ∃ n, n ≤ rank a ∧ ArrivesIn step goal n a := by
  generalize height : rank a = r
  induction r using Nat.strong_induction_on generalizing a with
  | _ r lower =>
    subst height
    obtain ⟨b, next, ⟨arrived, positive⟩ | ⟨further, falls⟩⟩ := descend a met
    · exact ⟨1, positive, .onward next (.here arrived)⟩
    · obtain ⟨n, short, arrives⟩ := lower (rank b) falls b further rfl
      exact ⟨n + 1, Nat.succ_le_of_lt (short.trans_lt falls), .onward next arrives⟩

theorem acyclic_of_rank (falls : ∀ a b, step a b → rank b < rank a) (a : α) :
    ¬ Relation.TransGen step a a := by
  intro cycle
  have lower : Relation.TransGen (α := Nat) (· > ·) (rank a) (rank a) :=
    Relation.TransGen.lift rank falls a a cycle
  rw [Relation.transGen_eq_self] at lower
  exact lt_irrefl _ lower
