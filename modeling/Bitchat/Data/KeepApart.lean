import Mathlib.Data.List.Induction
import Mathlib.Data.List.Basic

/-! A loop that passes over the elements like one it kept before. Where alike means of one class,
it keeps one element of each class. -/

section KeepApart
variable {α β : Type*} {like : α → α → Bool} {l : List α} {x : α}

def keepApart (like : α → α → Bool) (l : List α) : List α :=
  l.foldl (fun kept x => if kept.any (like x) then kept else kept ++ [x]) []

theorem keepApart_concat (like : α → α → Bool) (l : List α) (x : α) :
    keepApart like (l ++ [x]) =
      if (keepApart like l).any (like x) then keepApart like l else keepApart like l ++ [x] := by
  simp [keepApart, List.foldl_append]

/-- A loop that keeps more than the elements, and passes over those that fail a test as well. -/
theorem foldl_eq_keepApart {step : β → α → β} (view : List α → β) {test : α → Prop} [DecidablePred test]
    (skips : ∀ kept x, ¬ test x → step (view kept) x = view kept)
    (again : ∀ kept x, test x → kept.any (like x) = true → step (view kept) x = view kept)
    (takes : ∀ kept x, test x → ¬ kept.any (like x) = true → step (view kept) x = view (kept ++ [x])) :
    l.foldl step (view []) = view (keepApart like (l.filter test)) := by
  induction l using List.reverseRecOn with
  | nil => rfl
  | append_singleton l x ih =>
    rw [List.foldl_append, ih, List.filter_append, List.filter_singleton, List.foldl_cons, List.foldl_nil]
    by_cases passed : test x
    · rw [decide_eq_true passed, cond_true, keepApart_concat]
      by_cases seen : (keepApart like (l.filter test)).any (like x) = true
      · rw [if_pos seen, again _ x passed seen]
      · rw [if_neg seen, takes _ x passed seen]
    · rw [decide_eq_false passed, cond_false, List.append_nil, skips _ x passed]

theorem keepApart_sublist : (keepApart like l).Sublist l := by
  induction l using List.reverseRecOn with
  | nil => exact .slnil
  | append_singleton l x ih =>
    rw [keepApart_concat]
    split
    · exact ih.trans (List.sublist_append_left l [x])
    · exact ih.append_right [x]

theorem keepApart_count [DecidableEq β] (kind : α → β)
    (same : ∀ x ∈ l, ∀ y ∈ l, like x y = true ↔ kind x = kind y) (b : β) :
    (keepApart like l).countP (fun x => kind x = b) = if b ∈ l.map kind then 1 else 0 := by
  induction l using List.reverseRecOn generalizing b with
  | nil => rfl
  | append_singleton l x ih =>
    have before := ih fun x hx y hy =>
      same x (List.mem_append_left _ hx) y (List.mem_append_left _ hy)
    have seen : (keepApart like l).any (like x) = true ↔ kind x ∈ l.map kind := by
      have counted : 0 < (keepApart like l).countP (fun y => kind y = kind x) ↔ kind x ∈ l.map kind := by
        rw [before]
        split <;> simp [*]
      rw [← counted, List.countP_pos_iff, List.any_eq_true]
      refine exists_congr fun y => and_congr_right fun kept => ?_
      have member := List.mem_append_left [x] (keepApart_sublist.subset kept)
      rw [same x (by simp) y member, decide_eq_true_eq, eq_comm]
    rw [keepApart_concat, List.map_append, List.map_singleton]
    by_cases known : kind x ∈ l.map kind
    · rw [if_pos (seen.mpr known), before]
      refine if_congr ?_ rfl rfl
      simp only [List.mem_append, List.mem_singleton]
      exact ⟨Or.inl, fun member => member.elim id fun here => here ▸ known⟩
    · rw [if_neg (mt seen.mp known), List.countP_append, before]
      by_cases here : b = kind x
      · simp [here, known]
      · simp [here, Ne.symm here]

end KeepApart
