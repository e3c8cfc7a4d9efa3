import Mathlib.Data.Finset.Card
import Mathlib.Data.Finset.Dedup
import Mathlib.Data.List.Basic

/-! Logs of keys with the times they were recorded at, newest first: the last record of each
key, and the keys recorded after it. A table of last records that only drops stale entries, and
its oldest one when it is full, holds every key that is not stale and was followed by fewer keys
than the table has places. -/

universe u v

namespace Recency
variable {κ : Type u} {τ : Type v} [DecidableEq κ]

/-- The last record of each key. -/
def latest : List (κ × τ) → List (κ × τ)
  | [] => []
  | e :: log => e :: (latest log).filter fun d => d.1 ≠ e.1

def last (k : κ) (log : List (κ × τ)) : Option τ := (log.find? fun e => e.1 = k).map Prod.snd

/-- The keys recorded after the last record of a key. -/
def since (k : κ) (log : List (κ × τ)) : Finset κ :=
  ((log.takeWhile fun e => e.1 ≠ k).map Prod.fst).toFinset

variable {k : κ} {t : τ} {e : κ × τ} {log newer table kept : List (κ × τ)}

theorem latest_sublist : (latest log).Sublist log := by
  induction log with
  | nil => exact .slnil
  | cons e log ih => exact (List.filter_sublist.trans ih).cons_cons e

theorem mem_latest : (k, t) ∈ latest log ↔ last k log = some t := by
  induction log with
  | nil => simp [latest, last]
  | cons e log ih =>
    by_cases same : e.1 = k
    · obtain ⟨j, s⟩ := e
      obtain rfl : j = k := same
      simp [latest, last, eq_comm]
    · have other : (k, t) ≠ e := fun h => same (congrArg Prod.fst h).symm
      have moved : last k (e :: log) = last k log := by simp [last, same]
      rw [moved, ← ih]
      simp [latest, other, Ne.symm same]

@[simp] theorem since_cons_self : since k ((k, t) :: log) = ∅ := by simp [since]

theorem since_cons (other : e.1 ≠ k) : since k (e :: log) = insert e.1 (since k log) := by
  simp [since, other]

theorem since_subset (other : e.1 ≠ k) : since k log ⊆ since k (e :: log) :=
  since_cons other ▸ Finset.subset_insert _ _

/-- Of two last records the newer one is of a key recorded since the older one. -/
theorem mem_since (ordered : (newer ++ [(k, t)]).Sublist (latest log)) (member : e ∈ newer) :
    e.1 ∈ since k log := by
  induction log generalizing newer with
  | nil => simp [latest] at ordered
  | cons d log ih =>
    have older : ∀ {newer}, (newer ++ [(k, t)]).Sublist ((latest log).filter fun c => c.1 ≠ d.1) →
        d.1 ≠ k ∧ (newer ++ [(k, t)]).Sublist (latest log) := by
      intro newer ordered
      refine ⟨fun same => ?_, ordered.trans List.filter_sublist⟩
      have found : (k, t) ∈ (latest log).filter fun c => c.1 ≠ d.1 := ordered.subset (by simp)
      simp [same] at found
    cases newer with
    | nil => cases member
    | cons c newer =>
      rw [latest, List.cons_append, List.cons_sublist_cons'] at ordered
      rcases ordered with rest | ⟨rfl, rest⟩
      · rw [← List.cons_append] at rest
        obtain ⟨other, rest⟩ := older rest
        exact since_subset other (ih rest member)
      · obtain ⟨other, rest⟩ := older rest
        rw [since_cons other, Finset.mem_insert]
        rcases List.mem_cons.mp member with rfl | member
        · exact Or.inl rfl
        · exact Or.inr (ih rest member)

theorem latest_nodup : ((latest log).map Prod.fst).Nodup := by
  induction log with
  | nil => exact .nil
  | cons e log ih =>
    rw [latest, List.map_cons, List.nodup_cons]
    exact ⟨by simp, ih.sublist (List.filter_sublist.map _)⟩

/-- Where a test that fails once fails from there on, dropping a prefix drops all. -/
theorem dropWhile_eq_filter {α : Type u} {test : α → Bool} {l : List α}
    (once : l.Pairwise fun a b => test b → test a) :
    l.dropWhile test = l.filter fun a => !test a := by
  induction l with
  | nil => rfl
  | cons a l ih =>
    rw [List.pairwise_cons] at once
    cases passed : test a with
    | true => simpa [passed] using ih once.2
    | false =>
      have others : l.filter (fun b => !test b) = l :=
        List.filter_eq_self.mpr fun b member => by
          cases later : test b with
          | true => exact absurd (once.1 b member later) (by simp [passed])
          | false => rfl
      simp [passed, others]

/-- A table of last records, oldest first, from which only stale entries and entries followed
by as many keys as the table has places are missing. -/
structure Window (places : Nat) (stale : τ → Prop) (log table : List (κ × τ)) : Prop where
  ordered : table.reverse.Sublist (latest log)
  holds : ∀ e ∈ latest log, e ∈ table ∨ stale e.2 ∨ places ≤ (since e.1 log).card
  size : table.length ≤ places

namespace Window
variable {places : Nat} {stale staler : τ → Prop}

theorem empty : Window places stale ([] : List (κ × τ)) [] := ⟨.slnil, by simp [latest], by simp⟩

theorem mono (window : Window places stale log table) (more : ∀ t, stale t → staler t) :
    Window places staler log table :=
  ⟨window.ordered, fun e member => (window.holds e member).imp_right (.imp_left (more _)),
    window.size⟩

/-- Stale entries can be dropped. -/
theorem drop (window : Window places stale log table) (fewer : kept.Sublist table)
    (dropped : ∀ e ∈ table, e ∈ kept ∨ stale e.2) : Window places stale log kept := by
  refine ⟨fewer.reverse.trans window.ordered, fun e member => ?_, fewer.length_le.trans window.size⟩
  rcases window.holds e member with held | gone
  · rcases dropped e held with held | old
    · exact Or.inl held
    · exact Or.inr (Or.inl old)
  · exact Or.inr gone

/-- A record goes to the end of a table that has lost no entry but the key's own. -/
theorem record (window : Window places stale log table) (fewer : kept.Sublist table)
    (others : ∀ e ∈ kept, e.1 ≠ k) (room : kept.length < places)
    (lost : ∀ e ∈ table, e.1 ≠ k → e ∈ kept ∨ places ≤ (since e.1 ((k, t) :: log)).card) :
    Window places stale ((k, t) :: log) (kept ++ [(k, t)]) := by
  refine ⟨?_, ?_, by rwa [List.length_append]⟩
  · rw [List.reverse_append, List.reverse_singleton, List.singleton_append, latest]
    refine List.Sublist.cons_cons _ ?_
    have all : kept.reverse.filter (fun e => e.1 ≠ k) = kept.reverse :=
      List.filter_eq_self.mpr fun e member => by simpa using others e (List.mem_reverse.mp member)
    exact all ▸ (fewer.reverse.trans window.ordered).filter _
  · intro e member
    rw [latest, List.mem_cons, List.mem_filter, decide_eq_true_eq] at member
    rcases member with rfl | ⟨member, other⟩
    · exact Or.inl (by simp)
    · rcases window.holds e member with held | old | many
      · exact (lost e held other).imp (List.mem_append_left _) Or.inr
      · exact Or.inr (Or.inl old)
      · exact Or.inr (Or.inr (many.trans (Finset.card_le_card (since_subset (Ne.symm other)))))

/-- A full table has no place for a new key. Its oldest entry goes, and all others were recorded
after that one. -/
theorem evict (window : Window places stale log (e :: kept)) (full : places ≤ kept.length + 1)
    (others : ∀ d ∈ e :: kept, d.1 ≠ k) :
    Window places stale ((k, t) :: log) (kept ++ [(k, t)]) := by
  refine window.record (List.sublist_cons_self _ _)
    (fun d member => others d (List.mem_cons_of_mem _ member)) window.size fun d held _ => ?_
  rcases List.mem_cons.mp held with rfl | held
  · right
    have ordered := window.ordered
    rw [List.reverse_cons] at ordered
    have newer : (kept.map Prod.fst).toFinset ⊆ since d.1 log := by
      intro j found
      obtain ⟨c, held, rfl⟩ := List.mem_map.mp (List.mem_toFinset.mp found)
      exact mem_since ordered (List.mem_reverse.mpr held)
    have fresh : k ∉ (kept.map Prod.fst).toFinset := by
      intro found
      obtain ⟨c, held, same⟩ := List.mem_map.mp (List.mem_toFinset.mp found)
      exact others c (List.mem_cons_of_mem _ held) same
    have distinct : (kept.map Prod.fst).Nodup := by
      have keys := latest_nodup.sublist (ordered.map Prod.fst)
      rw [List.map_append, List.nodup_append, List.map_reverse, List.nodup_reverse] at keys
      exact keys.1
    calc places ≤ kept.length + 1 := full
      _ = (insert k (kept.map Prod.fst).toFinset).card := by
          rw [Finset.card_insert_of_notMem fresh, List.toFinset_card_of_nodup distinct,
            List.length_map]
      _ ≤ (since d.1 ((k, t) :: log)).card := by
          have other : (k, t).1 ≠ d.1 := Ne.symm (others d List.mem_cons_self)
          rw [since_cons other]
          exact Finset.card_le_card (Finset.insert_subset_insert k newer)
  · exact Or.inl held

end Window
end Recency
