import Mathlib.Data.List.Induction
import Mathlib.Data.List.Nodup

/-! Choices made one after another. An item gets the value it wants, or its fallback where that
is taken or it wants none; a fallback is handed out without asking whether it is taken. -/

universe u v

namespace DefaultedChoice
variable {α : Type u} {β : Type v} [DecidableEq β] (fallback : α → β) (wanted : α → Option β)

def choose (taken : List β) (a : α) : β :=
  match wanted a with
  | none => fallback a
  | some value => if value ∈ taken then fallback a else value

/-- The items with what each of them gets. -/
def assign (items : List α) : List (α × β) :=
  items.foldl (fun done a => done ++ [(a, choose fallback wanted (done.map Prod.snd) a)]) []

/-- What the items get. -/
def choices (items : List α) : List β := (assign fallback wanted items).map Prod.snd

/-- An item after these gets its fallback: it wants nothing, or what one of them wants, or the
fallback of one of them that got its fallback itself. -/
inductive FallsBack : List α → α → Prop where
  | missing {earlier : List α} {a : α} : wanted a = none → FallsBack earlier a
  | same {earlier : List α} {a b : α} {value : β} : b ∈ earlier → wanted b = some value →
      wanted a = some value → FallsBack earlier a
  | displaced {before after : List α} {a b : α} : FallsBack before b →
      wanted a = some (fallback b) → FallsBack (before ++ b :: after) a

/-- One of the items wants the value, or falls back to it. -/
def Claimed (items : List α) (value : β) : Prop :=
  (∃ b ∈ items, wanted b = some value) ∨
    ∃ before b after, items = before ++ b :: after ∧ FallsBack fallback wanted before b ∧
      fallback b = value

variable {fallback wanted} {items : List α} {a : α} {value : β}

theorem assign_snoc : assign fallback wanted (items ++ [a]) =
    assign fallback wanted items ++ [(a, choose fallback wanted (choices fallback wanted items) a)] := by
  rw [assign, List.foldl_append]
  rfl

theorem choices_snoc : choices fallback wanted (items ++ [a]) =
    choices fallback wanted items ++ [choose fallback wanted (choices fallback wanted items) a] := by
  rw [choices, assign_snoc, List.map_append]
  rfl

theorem assign_items (items : List α) : (assign fallback wanted items).map Prod.fst = items := by
  induction items using List.reverseRecOn with
  | nil => rfl
  | append_singleton items a ih => rw [assign_snoc, List.map_append, ih]; rfl

theorem mem_of_assign (got : (a, value) ∈ assign fallback wanted items) : a ∈ items := by
  have whole : (assign fallback wanted items).map Prod.fst = items := assign_items items
  rw [← whole]
  exact List.mem_map_of_mem got

theorem choose_cases (taken : List β) (a : α) : choose fallback wanted taken a = fallback a ∨
    (wanted a = some (choose fallback wanted taken a) ∧ choose fallback wanted taken a ∉ taken) := by
  unfold choose
  split
  · exact .inl rfl
  · next value wish =>
    by_cases used : value ∈ taken
    · exact .inl (if_pos used)
    · rw [if_neg used]
      exact .inr ⟨wish, used⟩

omit [DecidableEq β] in
theorem fallsBack_iff : FallsBack fallback wanted items a ↔
    ∀ value, wanted a = some value → Claimed fallback wanted items value := by
  constructor
  · intro falls value wish
    cases falls with
    | missing none => cases none.symm.trans wish
    | same member other mine =>
      cases mine.symm.trans wish
      exact .inl ⟨_, member, other⟩
    | displaced falls mine =>
      cases mine.symm.trans wish
      exact .inr ⟨_, _, _, rfl, falls, rfl⟩
  · intro claimed
    cases wish : wanted a with
    | none => exact .missing wish
    | some value =>
      rcases claimed value wish with ⟨b, member, other⟩ | ⟨before, b, after, rfl, falls, rfl⟩
      · exact .same member other wish
      · exact .displaced falls wish

/-- A position in a list with one more item is a position in the list, or the new last one. -/
theorem snoc_eq_append {before after : List α} {b : α} :
    items ++ [a] = before ++ b :: after ↔
      (∃ rest, after = rest ++ [a] ∧ items = before ++ b :: rest) ∨
        (after = [] ∧ b = a ∧ before = items) := by
  constructor
  · intro whole
    rcases List.eq_nil_or_concat after with rfl | ⟨rest, last, rfl⟩
    · obtain ⟨front, only⟩ := List.append_inj' whole rfl
      cases only
      exact .inr ⟨rfl, rfl, front.symm⟩
    · rw [List.concat_eq_append, ← List.cons_append, ← List.append_assoc] at whole
      obtain ⟨front, only⟩ := List.append_inj' whole rfl
      cases only
      exact .inl ⟨rest, List.concat_eq_append, front⟩
  · rintro (⟨rest, rfl, rfl⟩ | ⟨rfl, rfl, rfl⟩)
    · rw [List.append_assoc, List.cons_append]
    · rfl

omit [DecidableEq β] in
theorem claimed_snoc : Claimed fallback wanted (items ++ [a]) value ↔
    Claimed fallback wanted items value ∨ wanted a = some value ∨
      (FallsBack fallback wanted items a ∧ fallback a = value) := by
  constructor
  · rintro (⟨b, member, wish⟩ | ⟨before, b, after, whole, falls, rfl⟩)
    · rcases List.mem_append.mp member with old | new
      · exact .inl (.inl ⟨b, old, wish⟩)
      · cases List.mem_singleton.mp new
        exact .inr (.inl wish)
    · rcases snoc_eq_append.mp whole with ⟨rest, rfl, rfl⟩ | ⟨rfl, rfl, rfl⟩
      · exact .inl (.inr ⟨before, b, rest, rfl, falls, rfl⟩)
      · exact .inr (.inr ⟨falls, rfl⟩)
  · rintro ((⟨b, member, wish⟩ | ⟨before, b, after, rfl, falls, rfl⟩) | wish | ⟨falls, rfl⟩)
    · exact .inl ⟨b, List.mem_append_left _ member, wish⟩
    · exact .inr ⟨before, b, after ++ [a], by simp, falls, rfl⟩
    · exact .inl ⟨a, List.mem_append_right _ (List.mem_singleton_self a), wish⟩
    · exact .inr ⟨items, a, [], rfl, falls, rfl⟩

/-- The values handed out are those that are wanted or fallen back to. -/
theorem mem_choices (items : List α) (value : β) :
    value ∈ choices fallback wanted items ↔ Claimed fallback wanted items value := by
  induction items using List.reverseRecOn generalizing value with
  | nil => simp [choices, assign, Claimed]
  | append_singleton items a ih =>
    rw [choices_snoc, List.mem_append, List.mem_singleton, ih, claimed_snoc]
    unfold choose
    split
    · next nothing =>
      have falls : FallsBack fallback wanted items a := .missing nothing
      simp [falls, nothing, eq_comm]
    · next wish present =>
      have taken : FallsBack fallback wanted items a ↔ wish ∈ choices fallback wanted items := by
        rw [fallsBack_iff, ih]
        exact ⟨fun claimed => claimed wish present, fun claimed _ same =>
          Option.some.inj (present.symm.trans same) ▸ claimed⟩
      by_cases used : wish ∈ choices fallback wanted items
      · have claimed := (ih wish).mp used
        rw [if_pos used, present, taken]
        constructor
        · rintro (old | rfl)
          · exact .inl old
          · exact .inr (.inr ⟨used, rfl⟩)
        · rintro (old | same | ⟨_, rfl⟩)
          · exact .inl old
          · exact .inl (Option.some.inj same ▸ claimed)
          · exact .inr rfl
      · rw [if_neg used, present, taken]
        simp [used, eq_comm]

theorem fallsBack_iff_taken : FallsBack fallback wanted items a ↔
    ∀ value, wanted a = some value → value ∈ choices fallback wanted items := by
  simp only [fallsBack_iff, mem_choices]

/-- Each item gets its fallback or what it wants. -/
theorem assign_cases (got : (a, value) ∈ assign fallback wanted items) :
    value = fallback a ∨ wanted a = some value := by
  induction items using List.reverseRecOn with
  | nil => cases got
  | append_singleton items last ih =>
    rw [assign_snoc, List.mem_append, List.mem_singleton] at got
    rcases got with old | new
    · exact ih old
    · cases new
      exact (choose_cases _ a).imp_right And.left

theorem choose_falling (falls : FallsBack fallback wanted items a) :
    choose fallback wanted (choices fallback wanted items) a = fallback a := by
  rcases choose_cases (choices fallback wanted items) a with same | ⟨wish, free⟩
  · exact same
  · exact absurd (fallsBack_iff_taken.mp falls _ wish) free

theorem choose_keeping (keeps : ¬FallsBack fallback wanted items a) :
    wanted a = some (choose fallback wanted (choices fallback wanted items) a) ∧
      choose fallback wanted (choices fallback wanted items) a ∉ choices fallback wanted items := by
  simp only [fallsBack_iff_taken, not_forall] at keeps
  obtain ⟨value, wish, free⟩ := keeps
  have kept : choose fallback wanted (choices fallback wanted items) a = value := by
    rw [choose, wish]
    exact if_neg free
  rw [kept]
  exact ⟨wish, free⟩

/-- No two items get the same value if and only if none falls back to what an item before it
wants. -/
theorem choices_nodup (distinct : (items.map fallback).Nodup) :
    (choices fallback wanted items).Nodup ↔ ∀ before a after, items = before ++ a :: after →
      FallsBack fallback wanted before a → ∀ b ∈ before, wanted b ≠ some (fallback a) := by
  induction items using List.reverseRecOn with
  | nil => simp [choices, assign]
  | append_singleton items a ih =>
    rw [List.map_append, List.nodup_append] at distinct
    have fresh : ∀ b ∈ items, fallback b ≠ fallback a :=
      fun b member => distinct.2.2 _ (List.mem_map_of_mem member) _ (List.mem_singleton_self _)
    have last : choose fallback wanted (choices fallback wanted items) a ∉ choices fallback wanted items ↔
        (FallsBack fallback wanted items a → ∀ b ∈ items, wanted b ≠ some (fallback a)) := by
      by_cases falls : FallsBack fallback wanted items a
      · rw [choose_falling falls, mem_choices]
        constructor
        · intro unclaimed _ b member wish
          exact unclaimed (.inl ⟨b, member, wish⟩)
        · rintro free (⟨b, member, wish⟩ | ⟨before, b, after, rfl, _, same⟩)
          · exact free falls b member wish
          · exact fresh b (by simp) same
      · exact iff_of_true (choose_keeping falls).2 fun contrary => absurd contrary falls
    have positions : (∀ before b after, items ++ [a] = before ++ b :: after →
        FallsBack fallback wanted before b → ∀ c ∈ before, wanted c ≠ some (fallback b)) ↔
        (∀ before b after, items = before ++ b :: after →
          FallsBack fallback wanted before b → ∀ c ∈ before, wanted c ≠ some (fallback b)) ∧
        (FallsBack fallback wanted items a → ∀ b ∈ items, wanted b ≠ some (fallback a)) := by
      constructor
      · intro each
        refine ⟨fun before b after whole => ?_, each items a [] rfl⟩
        exact each before b (after ++ [a]) (by rw [whole]; simp)
      · rintro ⟨old, new⟩ before b after whole
        rcases snoc_eq_append.mp whole with ⟨rest, rfl, rfl⟩ | ⟨rfl, rfl, rfl⟩
        · exact old before b rest rfl
        · exact new
    rw [positions, ← ih distinct.1, ← last, choices_snoc, List.nodup_append]
    simp only [List.nodup_singleton, List.mem_singleton, true_and]
    apply and_congr_right
    intro _
    exact ⟨fun apart member => apart _ member _ rfl rfl, fun free x member y same used =>
      free (same ▸ used ▸ member)⟩

theorem assign_congr {wanted' : α → Option β} (same : ∀ a ∈ items, wanted' a = wanted a) :
    assign fallback wanted' items = assign fallback wanted items := by
  induction items using List.reverseRecOn with
  | nil => rfl
  | append_singleton items a ih =>
    have before := ih fun b member => same b (List.mem_append_left _ member)
    have last := same a (List.mem_append_right _ (List.mem_singleton_self a))
    rw [assign_snoc, assign_snoc, choices, before, choose, choose, last]
    rfl

/-- Whoever wants what it got gets it again. -/
theorem assign_again {wanted' : α → Option β}
    (got : ∀ e ∈ assign fallback wanted items, wanted' e.1 = some e.2) :
    assign fallback wanted' items = assign fallback wanted items := by
  induction items using List.reverseRecOn with
  | nil => rfl
  | append_singleton items a ih =>
    rw [assign_snoc] at got
    have before := ih fun e member => got e (List.mem_append_left _ member)
    have wish : wanted' a = some (choose fallback wanted (choices fallback wanted items) a) :=
      got (a, _) (List.mem_append_right _ (List.mem_singleton_self _))
    rw [assign_snoc, assign_snoc, choices, before]
    congr 3
    rw [choose, wish]
    simp only
    split
    · next used =>
      rcases choose_cases (choices fallback wanted items) a with same | ⟨_, free⟩
      · exact same.symm
      · exact absurd used free
    · rfl

/-- What an item wants is refused only to one before whom another got it. -/
theorem kept {before after : List α} (whole : items = before ++ a :: after)
    (wish : wanted a = some value) (free : value ∉ choices fallback wanted before) :
    (a, value) ∈ assign fallback wanted items := by
  subst whole
  induction after using List.reverseRecOn with
  | nil =>
    rw [assign_snoc, choose, wish]
    simp [free]
  | append_singleton after last ih =>
    rw [← List.cons_append, ← List.append_assoc, assign_snoc]
    exact List.mem_append_left _ ih

/-- The first items get what they get without those after them. -/
theorem assign_earlier (before after : List α) :
    assign fallback wanted before <+: assign fallback wanted (before ++ after) := by
  induction after using List.reverseRecOn with
  | nil => exact (List.append_nil before).symm ▸ List.prefix_rfl
  | append_singleton after last ih =>
    rw [← List.append_assoc, assign_snoc]
    exact ih.trans (List.prefix_append _ _)

end DefaultedChoice
