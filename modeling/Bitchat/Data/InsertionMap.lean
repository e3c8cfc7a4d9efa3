import Mathlib.Data.List.Basic
import Mathlib.Data.List.Nodup
import Mathlib.Algebra.BigOperators.Group.List.Basic
import Mathlib.Tactic.Abel
import Mathlib.Tactic.Tauto

/-! Finite maps that keep the order in which their keys were first inserted.
Uniqueness of keys is part of the type, so a lookup determines the entry and
every update is described by one split of the entry list. -/

universe u v

structure InsertionMap (κ : Type u) (ν : Type v) where
  entries : List (κ × ν)
  nodup : (entries.map Prod.fst).Nodup
deriving DecidableEq

namespace InsertionMap
variable {κ : Type u} {ν : Type v}

theorem ext {m n : InsertionMap κ ν} (same : m.entries = n.entries) : m = n := by
  cases m
  cases n
  cases same
  rfl

def empty : InsertionMap κ ν := ⟨[], .nil⟩

def size (m : InsertionMap κ ν) : Nat := m.entries.length

def keys (m : InsertionMap κ ν) : List κ := m.entries.map Prod.fst

def values (m : InsertionMap κ ν) : List ν := m.entries.map Prod.snd

/-- Drop the entry that was inserted first. -/
def popFirst (m : InsertionMap κ ν) : InsertionMap κ ν :=
  ⟨m.entries.tail, by rw [List.map_tail]; exact m.nodup.tail⟩

/-- Keep the entries that satisfy a test, in order. -/
def filter (m : InsertionMap κ ν) (keep : κ × ν → Bool) : InsertionMap κ ν :=
  ⟨m.entries.filter keep, m.nodup.sublist (List.filter_sublist.map _)⟩

/-- Rewrite each value, deleting the entries whose rewriting is `none`. -/
def filterMap (m : InsertionMap κ ν) (f : ν → Option ν) : InsertionMap κ ν where
  entries := m.entries.filterMap fun e => (f e.2).map (e.1, ·)
  nodup := by
    refine m.nodup.sublist ?_
    induction m.entries with
    | nil => simp
    | cons e rest ih =>
      cases h : f e.2 with
      | none => simpa [h] using ih.cons _
      | some v => simpa [h] using ih.cons_cons e.1

section Lookup
variable [DecidableEq κ]

def get? (m : InsertionMap κ ν) (k : κ) : Option ν :=
  (m.entries.find? fun e => e.1 = k).map Prod.snd

def contains (m : InsertionMap κ ν) (k : κ) : Bool := (m.get? k).isSome

def erase (m : InsertionMap κ ν) (k : κ) : InsertionMap κ ν := m.filter fun e => e.1 ≠ k

/-- Assignment: an existing key keeps its place, a new key goes last. -/
def set (m : InsertionMap κ ν) (k : κ) (v : ν) : InsertionMap κ ν :=
  if h : k ∈ m.entries.map Prod.fst then
    ⟨m.entries.map fun e => if e.1 = k then (k, v) else e, by
      have same : (m.entries.map fun e => if e.1 = k then (k, v) else e).map Prod.fst =
          m.entries.map Prod.fst := by
        rw [List.map_map]
        refine List.map_congr_left fun e _ => ?_
        by_cases hk : e.1 = k <;> simp [hk]
      exact same ▸ m.nodup⟩
  else ⟨m.entries ++ [(k, v)], by
    simpa [List.nodup_append] using
      And.intro m.nodup fun a b hb hk => h (List.mem_map.mpr ⟨(a, b), hb, hk⟩)⟩

/-- Make an existing key the last one. -/
def moveToEnd (m : InsertionMap κ ν) (k : κ) : InsertionMap κ ν :=
  match m.get? k with
  | none => m
  | some v => (m.erase k).set k v

theorem get?_eq_some {m : InsertionMap κ ν} {k : κ} {v : ν} :
    m.get? k = some v ↔ (k, v) ∈ m.entries := by
  obtain ⟨entries, nodup⟩ := m
  simp only [get?]
  induction entries with
  | nil => simp
  | cons e rest ih =>
    simp only [List.map_cons, List.nodup_cons] at nodup
    by_cases hk : e.1 = k
    · have fresh : (k, v) ∉ rest := fun h => nodup.1 (hk ▸ List.mem_map.mpr ⟨_, h, rfl⟩)
      obtain ⟨k', v'⟩ := e
      simp only at hk
      subst hk
      simp only [List.find?_cons, decide_true, Option.map_some, Option.some.injEq,
        List.mem_cons, fresh, or_false, Prod.mk.injEq, true_and]
      exact eq_comm
    · have other : (k, v) ≠ e := fun h => hk (h ▸ rfl)
      simpa [List.find?_cons, hk, other] using ih nodup.2

theorem get?_eq_none {m : InsertionMap κ ν} {k : κ} :
    m.get? k = none ↔ k ∉ m.entries.map Prod.fst := by
  simp only [get?, Option.map_eq_none_iff, List.find?_eq_none, decide_eq_true_eq,
    List.mem_map, not_exists, not_and]

theorem contains_iff {m : InsertionMap κ ν} {k : κ} : m.contains k ↔ ∃ v, m.get? k = some v := by
  simp [contains, Option.isSome_iff_exists]

theorem get?_eq_some_of_mem {m : InsertionMap κ ν} {e : κ × ν} (h : e ∈ m.entries) :
    m.get? e.1 = some e.2 := get?_eq_some.mpr h

theorem mem_values {m : InsertionMap κ ν} {v : ν} : v ∈ m.values ↔ ∃ k, m.get? k = some v := by
  simp only [values, List.mem_map, get?_eq_some]
  exact ⟨fun ⟨e, member, same⟩ => ⟨e.1, same ▸ member⟩, fun ⟨k, member⟩ => ⟨(k, v), member, rfl⟩⟩

/-- A map with one key at most has one entry at most. -/
theorem size_le_one {m : InsertionMap κ ν} {k : κ} (only : ∀ j v, m.get? j = some v → j = k) :
    m.size ≤ 1 := by
  have keys : ∀ j ∈ m.entries.map Prod.fst, j = k := by
    intro j member
    obtain ⟨e, entry, rfl⟩ := List.mem_map.mp member
    exact only e.1 e.2 (get?_eq_some_of_mem entry)
  have repeated := List.eq_replicate_of_mem keys
  have nodup := m.nodup
  rw [repeated, List.nodup_replicate, List.length_map] at nodup
  exact nodup

omit [DecidableEq κ] in
theorem countP_values (m : InsertionMap κ ν) (q : ν → Bool) :
    m.values.countP q = ((m.entries.filter fun e => q e.2).map Prod.fst).length := by
  rw [values, List.countP_map, List.countP_eq_length_filter, List.length_map]
  rfl

/-- Values that come from values under the same keys are not more, but for the keys excepted. -/
theorem countP_values_le {m n : InsertionMap κ ν} {p q : ν → Bool} (excepted : List κ)
    (origin : ∀ k v, k ∉ excepted → n.get? k = some v → q v → ∃ u, m.get? k = some u ∧ p u) :
    n.values.countP q ≤ m.values.countP p + excepted.length := by
  rw [countP_values, countP_values, ← List.length_append]
  apply List.Subperm.length_le
  apply List.subperm_of_subset
  · exact n.nodup.sublist (List.filter_sublist.map _)
  · intro _ member
    obtain ⟨⟨k, v⟩, kept, rfl⟩ := List.mem_map.mp member
    obtain ⟨entry, holds⟩ := List.mem_filter.mp kept
    by_cases special : k ∈ excepted
    · exact List.mem_append_right _ special
    · obtain ⟨u, found, holds'⟩ := origin k v special (get?_eq_some.mpr entry) holds
      apply List.mem_append_left
      exact List.mem_map.mpr ⟨(k, u), List.mem_filter.mpr ⟨get?_eq_some.mp found, holds'⟩, rfl⟩

/-- Every update of a present key rewrites the entry list around one position. -/
theorem split {m : InsertionMap κ ν} {k : κ} {v : ν} (h : m.get? k = some v) :
    ∃ before after, m.entries = before ++ (k, v) :: after ∧
      (∀ e ∈ before, e.1 ≠ k) ∧ ∀ e ∈ after, e.1 ≠ k := by
  obtain ⟨before, after, same⟩ := List.mem_iff_append.mp (get?_eq_some.mp h)
  refine ⟨before, after, same, ?_⟩
  have nodup := m.nodup
  simp only [same, List.map_append, List.map_cons, List.nodup_append, List.nodup_cons] at nodup
  constructor
  · intro e he hk
    exact nodup.2.2 k (List.mem_map.mpr ⟨e, he, hk⟩) k (by simp) rfl
  · intro e he hk
    exact nodup.2.1.1 (List.mem_map.mpr ⟨e, he, hk⟩)

theorem set_entries {m : InsertionMap κ ν} {k : κ} {w : ν} {before after : List (κ × ν)}
    (same : m.entries = before ++ (k, w) :: after) (hb : ∀ e ∈ before, e.1 ≠ k)
    (ha : ∀ e ∈ after, e.1 ≠ k) (v : ν) :
    (m.set k v).entries = before ++ (k, v) :: after := by
  have keep : ∀ l : List (κ × ν), (∀ e ∈ l, e.1 ≠ k) →
      (l.map fun e => if e.1 = k then (k, v) else e) = l := by
    intro l hl
    conv_rhs => rw [← List.map_id l]
    exact List.map_congr_left fun e he => by simp [hl e he]
  have mem : k ∈ m.entries.map Prod.fst := by simp [same]
  simp only [set, mem, dite_true]
  rw [same, List.map_append, List.map_cons, keep before hb, keep after ha]
  simp

theorem set_entries_new {m : InsertionMap κ ν} {k : κ} (h : m.get? k = none) (v : ν) :
    (m.set k v).entries = m.entries ++ [(k, v)] := by
  simp only [set, get?_eq_none.mp h, dite_false]

theorem erase_entries {m : InsertionMap κ ν} {k : κ} {w : ν} {before after : List (κ × ν)}
    (same : m.entries = before ++ (k, w) :: after) (hb : ∀ e ∈ before, e.1 ≠ k)
    (ha : ∀ e ∈ after, e.1 ≠ k) : (m.erase k).entries = before ++ after := by
  have keep : ∀ l : List (κ × ν), (∀ e ∈ l, e.1 ≠ k) → l.filter (fun e => e.1 ≠ k) = l :=
    fun l hl => List.filter_eq_self.mpr fun e he => by simpa using hl e he
  have head : ((k, w) :: after).filter (fun e => e.1 ≠ k) = after := by
    rw [List.filter_cons_of_neg (by simp), keep after ha]
  change m.entries.filter _ = _
  rw [same, List.filter_append, keep before hb, head]

@[simp] theorem get?_empty (k : κ) : (empty : InsertionMap κ ν).get? k = none := rfl

@[simp] theorem get?_set (m : InsertionMap κ ν) (k j : κ) (v : ν) :
    (m.set k v).get? j = if j = k then some v else m.get? j := by
  have mem : ∀ w, (j, w) ∈ (m.set k v).entries ↔
      (j = k ∧ w = v) ∨ (j ≠ k ∧ (j, w) ∈ m.entries) := by
    intro w
    cases h : m.get? k with
    | none =>
      rw [set_entries_new h]
      have absent : (j, w) ∈ m.entries → j ≠ k :=
        fun hm hk => get?_eq_none.mp h (hk ▸ List.mem_map.mpr ⟨_, hm, rfl⟩)
      simp only [List.mem_append, List.mem_singleton, Prod.mk.injEq]
      tauto
    | some u =>
      obtain ⟨before, after, same, hb, ha⟩ := split h
      rw [set_entries same hb ha, same]
      have left : (j, w) ∈ before → j ≠ k := fun hm => hb _ hm
      have right : (j, w) ∈ after → j ≠ k := fun hm => ha _ hm
      simp only [List.mem_append, List.mem_cons, Prod.mk.injEq]
      tauto
  ext w
  rw [get?_eq_some, mem]
  by_cases hj : j = k
  · simp [hj, eq_comm]
  · simp [hj, get?_eq_some]

@[simp] theorem get?_erase (m : InsertionMap κ ν) (k j : κ) :
    (m.erase k).get? j = if j = k then none else m.get? j := by
  ext w
  rw [get?_eq_some]
  by_cases hj : j = k
  · simp [erase, filter, hj]
  · simp [erase, filter, hj, get?_eq_some]

@[simp] theorem get?_moveToEnd (m : InsertionMap κ ν) (k j : κ) :
    (m.moveToEnd k).get? j = m.get? j := by
  unfold moveToEnd
  cases h : m.get? k with
  | none => rfl
  | some v =>
    by_cases hj : j = k
    · simp [hj, h]
    · simp [hj]

/-- Assigning what is there changes nothing. -/
theorem set_self {m : InsertionMap κ ν} {k : κ} {v : ν} (h : m.get? k = some v) : m.set k v = m := by
  obtain ⟨before, after, same, hb, ha⟩ := split h
  apply ext
  rw [set_entries same hb ha, same]

theorem get?_filter (m : InsertionMap κ ν) (keep : κ × ν → Bool) (k : κ) :
    (m.filter keep).get? k = (m.get? k).filter fun v => keep (k, v) := by
  ext v
  simp [get?_eq_some, filter, Option.filter_eq_some_iff]

/-- The first entry can only be dropped, never changed. -/
theorem get?_popFirst {m : InsertionMap κ ν} {k : κ} :
    m.popFirst.get? k = m.get? k ∨
      (m.popFirst.get? k = none ∧ ∃ e, m.entries.head? = some e ∧ e.1 = k) := by
  obtain ⟨entries, nodup⟩ := m
  cases entries with
  | nil => exact Or.inl rfl
  | cons e rest =>
    by_cases hk : e.1 = k
    · refine Or.inr ⟨?_, e, rfl, hk⟩
      rw [get?_eq_none]
      simp only [List.map_cons, List.nodup_cons] at nodup
      exact hk ▸ nodup.1
    · exact Or.inl (by simp [get?, popFirst, hk])

/-- The first entry is there, and then gone. -/
theorem popFirst_head {m : InsertionMap κ ν} {e : κ × ν} (first : m.entries.head? = some e) :
    m.get? e.1 = some e.2 ∧ m.popFirst.get? e.1 = none := by
  refine ⟨get?_eq_some_of_mem (List.mem_of_head? first), ?_⟩
  obtain ⟨entries, nodup⟩ := m
  obtain ⟨rest, rfl⟩ := List.head?_eq_some_iff.mp first
  simp only [List.map_cons, List.nodup_cons] at nodup
  exact get?_eq_none.mpr nodup.1

theorem get?_popFirst_eq (m : InsertionMap κ ν) (k : κ) :
    m.popFirst.get? k = if m.entries.head?.map Prod.fst = some k then none else m.get? k := by
  rcases get?_popFirst (m := m) (k := k) with same | ⟨gone, e, first, rfl⟩
  · split
    · next head =>
      obtain ⟨e, first, rfl⟩ := Option.map_eq_some_iff.mp head
      exact (popFirst_head first).2
    · exact same
  · rw [first, gone]
    exact (if_pos rfl).symm

/-- A map with the same entries and one of them in front. -/
theorem exists_front {m : InsertionMap κ ν} {k : κ} {v : ν} (held : m.get? k = some v) :
    ∃ n : InsertionMap κ ν, (∀ j, n.get? j = m.get? j) ∧ n.entries.head? = some (k, v) := by
  have fresh : k ∉ (m.erase k).entries.map Prod.fst := by
    rw [← get?_eq_none, get?_erase, if_pos rfl]
  refine ⟨⟨(k, v) :: (m.erase k).entries, List.nodup_cons.mpr ⟨fresh, (m.erase k).nodup⟩⟩, fun j => ?_, rfl⟩
  by_cases same : j = k
  · subst same
    rw [held]
    exact get?_eq_some.mpr List.mem_cons_self
  · have other := get?_erase m k j
    rw [if_neg same] at other
    rw [← other]
    simp only [get?, List.find?_cons, decide_eq_false (Ne.symm same)]

/-- Assignments of new keys in a row append their entries. -/
theorem foldl_set_entries {f : κ × ν → κ × ν} {l : List (κ × ν)} (m : InsertionMap κ ν)
    (fixed : ∀ e ∈ l, f e = e) (distinct : ((m.entries ++ l).map Prod.fst).Nodup) :
    (l.foldl (fun m e => m.set (f e).1 (f e).2) m).entries = m.entries ++ l := by
  induction l generalizing m with
  | nil => simp
  | cons e rest ih =>
    have fresh : m.get? e.1 = none := by
      rw [get?_eq_none]
      simp only [List.map_append, List.map_cons, List.nodup_append] at distinct
      exact fun member => distinct.2.2 _ member _ List.mem_cons_self rfl
    have placed : (m.set (f e).1 (f e).2).entries = m.entries ++ [e] := by
      rw [fixed e List.mem_cons_self]
      exact set_entries_new fresh e.2
    have whole := ih (m.set (f e).1 (f e).2) (fun e member => fixed e (List.mem_cons_of_mem _ member))
      (by rwa [placed, List.append_assoc])
    rw [List.foldl_cons, whole, placed, List.append_assoc]
    rfl

/-- What holds of each assignment holds of every entry in the end. -/
theorem forall_foldl_set {α : Type*} {P : κ → ν → Prop} {f : α → κ × ν} {l : List α}
    (m : InsertionMap κ ν) (assigned : ∀ a ∈ l, P (f a).1 (f a).2)
    (initial : ∀ k v, m.get? k = some v → P k v) :
    ∀ k v, (l.foldl (fun m a => m.set (f a).1 (f a).2) m).get? k = some v → P k v := by
  induction l generalizing m with
  | nil => exact initial
  | cons a rest ih =>
    apply ih
    · exact fun b member => assigned b (List.mem_cons_of_mem _ member)
    · intro k v found
      rw [get?_set] at found
      split at found
      · next same =>
        cases found
        exact same ▸ assigned a List.mem_cons_self
      · exact initial k v found

theorem mem_keys {m : InsertionMap κ ν} {k : κ} : k ∈ m.keys ↔ m.contains k = true := by
  rw [contains, Option.isSome_iff_ne_none, ne_eq, get?_eq_none, not_not, keys]

/-- Two maps with the same keys have the same size. -/
theorem size_eq_of_contains {ν' : Type*} {m : InsertionMap κ ν} {n : InsertionMap κ ν'}
    (same : ∀ k, m.contains k = n.contains k) : m.size = n.size := by
  have perm : m.keys.Perm n.keys := by
    apply (List.perm_ext_iff_of_nodup m.nodup n.nodup).mpr
    intro k
    exact (mem_keys.trans (by rw [same])).trans mem_keys.symm
  simpa [keys, size] using perm.length_eq

theorem size_erase {m : InsertionMap κ ν} {k : κ} (h : m.contains k) :
    (m.erase k).size + 1 = m.size := by
  obtain ⟨v, hv⟩ := contains_iff.mp h
  obtain ⟨before, after, same, hb, ha⟩ := split hv
  simp only [size, erase_entries same hb ha, same, List.length_append, List.length_cons]
  omega

theorem size_erase_le (m : InsertionMap κ ν) (k : κ) : (m.erase k).size ≤ m.size :=
  List.length_filter_le _ _

theorem size_set_new {m : InsertionMap κ ν} {k : κ} (h : m.get? k = none) (v : ν) :
    (m.set k v).size = m.size + 1 := by
  simp [size, set_entries_new h]

theorem size_set {m : InsertionMap κ ν} {k : κ} (h : m.contains k) (v : ν) :
    (m.set k v).size = m.size := by
  obtain ⟨w, hw⟩ := contains_iff.mp h
  obtain ⟨before, after, same, hb, ha⟩ := split hw
  simp [size, set_entries same hb ha, same]

theorem size_moveToEnd (m : InsertionMap κ ν) (k : κ) : (m.moveToEnd k).size = m.size := by
  unfold moveToEnd
  cases h : m.get? k with
  | none => rfl
  | some v =>
    simp only
    rw [size_set_new (by simp), size_erase (contains_iff.mpr ⟨v, h⟩)]

omit [DecidableEq κ] in
theorem size_popFirst (m : InsertionMap κ ν) : m.popFirst.size = m.size - 1 := by
  simp [size, popFirst]

end Lookup

section Sums
variable {α : Type*} [AddCommMonoid α]

/-- Total of a measure over the entries. -/
def total (m : InsertionMap κ ν) (f : ν → α) : α := (m.entries.map fun e => f e.2).sum

@[simp] theorem total_empty (f : ν → α) : (empty : InsertionMap κ ν).total f = 0 := rfl

variable [DecidableEq κ]

theorem total_set {m : InsertionMap κ ν} {k : κ} {w : ν} (h : m.get? k = some w) (v : ν)
    (f : ν → α) : (m.set k v).total f + f w = m.total f + f v := by
  obtain ⟨before, after, same, hb, ha⟩ := split h
  simp only [total, set_entries same hb ha, same, List.map_append, List.map_cons,
    List.sum_append, List.sum_cons]
  abel

theorem total_set_new {m : InsertionMap κ ν} {k : κ} (h : m.get? k = none) (v : ν) (f : ν → α) :
    (m.set k v).total f = m.total f + f v := by
  simp [total, set_entries_new h]

theorem total_erase {m : InsertionMap κ ν} {k : κ} {w : ν} (h : m.get? k = some w)
    (f : ν → α) : (m.erase k).total f + f w = m.total f := by
  obtain ⟨before, after, same, hb, ha⟩ := split h
  simp only [total, erase_entries same hb ha, same, List.map_append, List.map_cons,
    List.sum_append, List.sum_cons]
  abel

end Sums
end InsertionMap
