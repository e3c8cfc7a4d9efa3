import Mathlib.Data.List.Basic
import Mathlib.Data.List.Infix

/-! Interleavings of several sequences. Every item carries its source, and the items of one source
come in their own order. -/

variable {ι α : Type*} [DecidableEq ι] {parts : ι → List α} {whole more : List (ι × α)}

/-- The items of one source. -/
def itemsOf (i : ι) (whole : List (ι × α)) : List α :=
  (whole.filter fun item => item.1 = i).map Prod.snd

@[simp] theorem itemsOf_nil (i : ι) : itemsOf i ([] : List (ι × α)) = [] := rfl

@[simp] theorem itemsOf_append (i : ι) (whole more : List (ι × α)) :
    itemsOf i (whole ++ more) = itemsOf i whole ++ itemsOf i more := by
  simp [itemsOf]

theorem itemsOf_own (i : ι) (a : α) : itemsOf i [(i, a)] = [a] := by simp [itemsOf]

theorem itemsOf_other {i j : ι} (different : j ≠ i) (a : α) : itemsOf i [(j, a)] = [] := by
  simp [itemsOf, different]

theorem itemsOf_mono (i : ι) (earlier : whole <+: more) : itemsOf i whole <+: itemsOf i more := by
  obtain ⟨rest, rfl⟩ := earlier
  rw [itemsOf_append]
  exact List.prefix_append _ _

/-- Each source has given the first of its items. -/
def Interleaves (parts : ι → List α) (whole : List (ι × α)) : Prop := ∀ i, itemsOf i whole <+: parts i

namespace Interleaves

theorem earlier (woven : Interleaves parts more) (before : whole <+: more) : Interleaves parts whole :=
  fun i => (itemsOf_mono i before).trans (woven i)

/-- The last item is the one its source had next. -/
theorem last {i : ι} {a : α} (woven : Interleaves parts (whole ++ [(i, a)])) :
    (parts i)[(itemsOf i whole).length]? = some a := by
  obtain ⟨rest, whole_eq⟩ := woven i
  rw [← whole_eq, itemsOf_append, itemsOf_own, List.append_assoc]
  simp

/-- A source gives its next item. -/
theorem next {i : ι} {a : α} (woven : Interleaves parts whole)
    (due : (parts i)[(itemsOf i whole).length]? = some a) : Interleaves parts (whole ++ [(i, a)]) := by
  intro j
  by_cases same : i = j
  · subst same
    obtain ⟨rest, split⟩ := woven i
    rw [← split, List.getElem?_append_right (Nat.le_refl _), Nat.sub_self] at due
    rw [itemsOf_append, itemsOf_own, ← split, List.prefix_append_right_inj]
    cases rest with
    | nil => simp at due
    | cons b rest =>
      rw [List.getElem?_cons_zero, Option.some.injEq] at due
      exact ⟨rest, by rw [due, List.singleton_append]⟩
  · rw [itemsOf_append, itemsOf_other same, List.append_nil]
    exact woven j

end Interleaves
