import Mathlib.Data.Set.Function
import Mathlib.Data.List.Basic

/-! A running hash over a list of items: each item is hashed behind the hash so far.
Items stand latest first. Where the hash has no collision on what was hashed, and never
comes back to the start, equal chains have equal items. -/

universe u

namespace HashChain
variable {α : Type u} {hash : List α → List α} {start : List α} {width : Nat}

def value (hash : List α → List α) (start : List α) : List (List α) → List α
  | [] => start
  | item :: earlier => hash (value hash start earlier ++ item)

/-- Everything that was hashed on the way. -/
def inputs (hash : List α → List α) (start : List α) : List (List α) → List (List α)
  | [] => []
  | item :: earlier => (value hash start earlier ++ item) :: inputs hash start earlier

variable {S : Set (List α)} {xs ys : List (List α)}

theorem value_length (size : ∀ data, (hash data).length = width) (first : start.length = width)
    (items : List (List α)) : (value hash start items).length = width := by
  cases items with
  | nil => exact first
  | cons item earlier => exact size _

/-- What was hashed for the earlier items was hashed for all. -/
theorem inputs_suffix (earlier : xs <:+ ys) :
    ∀ i ∈ inputs hash start xs, i ∈ inputs hash start ys := by
  obtain ⟨later, rfl⟩ := earlier
  intro i member
  induction later with
  | nil => exact member
  | cons item later ih => exact List.mem_cons_of_mem _ ih

/-- Equal chains have the same items. -/
theorem value_inj (size : ∀ data, (hash data).length = width) (first : start.length = width)
    (free : Set.InjOn hash S) (fresh : ∀ i ∈ S, hash i ≠ start)
    (hx : ∀ i ∈ inputs hash start xs, i ∈ S) (hy : ∀ i ∈ inputs hash start ys, i ∈ S)
    (same : value hash start xs = value hash start ys) : xs = ys := by
  induction xs generalizing ys with
  | nil =>
    cases ys with
    | nil => rfl
    | cons y ys => exact absurd same.symm (fresh _ (hy _ List.mem_cons_self))
  | cons x xs ih =>
    cases ys with
    | nil => exact absurd same (fresh _ (hx _ List.mem_cons_self))
    | cons y ys =>
      have whole := free (hx _ List.mem_cons_self) (hy _ List.mem_cons_self) same
      have lengths : (value hash start xs).length = (value hash start ys).length := by
        rw [value_length size first, value_length size first]
      obtain ⟨chains, rfl⟩ := List.append_inj whole lengths
      have earlier := ih (fun i member => hx i (List.mem_cons_of_mem _ member))
        (fun i member => hy i (List.mem_cons_of_mem _ member)) chains
      rw [earlier]

end HashChain
