import Bitchat.Protocol.ReassemblyView
import Mathlib.Data.List.Perm.Subperm
import Mathlib.Data.List.Range

/-! What holds of every table and every result of the reassembler: the bounds of
the stored assemblies, where the bytes it returns come from, and that one key's
results do not depend on the fragments of others. -/
namespace Bitchat.Protocol.FragmentReassembler
open AssemblyState

/-- An assembly that still waits for chunks and respects the limits. -/
structure Waiting (lim : ReassemblyLimits) (state : AssemblyState) : Prop where
  incomplete : state.chunks.size < state.total
  indices : ∀ i chunk, state.chunks.get? i = some chunk → i < state.total
  total_le : state.total ≤ lim.maxFragmentsPerAssembly
  bytes : state.totalBytes = state.chunks.total List.length
  bytes_le : state.totalBytes ≤ lim.maxReassembledBytes

/-- An assembly as the table holds it. -/
structure Sound (lim : ReassemblyLimits) (state : AssemblyState) : Prop
    extends Waiting lim state where
  started : 0 < state.chunks.size

structure Bounded (lim : ReassemblyLimits) (r : FragmentReassembler) : Prop where
  active : r.assemblies.size ≤ lim.maxActiveAssemblies
  sound : ∀ key state, r.assemblies.get? key = some state → Sound lim state

/-- `state` is the assembly that takes the fragment: the one held, or a new one. -/
structure Takes (lim : ReassemblyLimits) (now : Seconds) (key : AssemblyKey)
    (fields : FragmentFields) (held : Option AssemblyState) (state : AssemblyState) : Prop where
  source : held = some state ∨
    (held = none ∧ state = opened key fields.total fields.originalType now)
  index_lt : fields.index < fields.total
  total_le : fields.total ≤ lim.maxFragmentsPerAssembly
  total : state.total = fields.total
  originalType : state.originalMessageType = fields.originalType
  fresh : state.chunks.get? fields.index = none
  fits : state.totalBytes + fields.data.length ≤ lim.maxReassembledBytes

def Complete (state : AssemblyState) : Prop :=
  state.chunks.size = state.total ∧ state.allPresent

/-- The five ways a fragment can be treated. -/
inductive Assembles (lim : ReassemblyLimits) (now : Seconds) (key : AssemblyKey)
    (fields : FragmentFields) (held : Option AssemblyState) :
    Reassembled → Option AssemblyState → Prop where
  | refused (e) : Assembles lim now key fields held (.error e) held
  | dropped (e) : Assembles lim now key fields held (.error e) none
  | repeated (state) : held = some state →
      Assembles lim now key fields held (.ok none) (some state)
  | stored (state) : Takes lim now key fields held state →
      ¬ Complete (state.withChunk fields.index fields.data) →
      Assembles lim now key fields held (.ok none)
        (some (state.withChunk fields.index fields.data))
  | completed (state) : Takes lim now key fields held state →
      Complete (state.withChunk fields.index fields.data) →
      Assembles lim now key fields held
        (.ok (some (state.withChunk fields.index fields.data).joinChunks)) none

section OneAssembly
variable {lim : ReassemblyLimits} {now : Seconds} {key : AssemblyKey} {fields : FragmentFields}
  {held : Option AssemblyState} {state : AssemblyState}

theorem assembles_collect
    (takes : state.totalBytes + fields.data.length ≤ lim.maxReassembledBytes →
      Takes lim now key fields held state) :
    Assembles lim now key fields held (collect lim state fields.index fields.data).1
      (collect lim state fields.index fields.data).2 := by
  unfold collect
  by_cases big : lim.maxReassembledBytes < state.totalBytes + fields.data.length
  · rw [if_pos big]
    exact .dropped _
  · rw [if_neg big]
    by_cases complete : Complete (state.withChunk fields.index fields.data)
    · simp only [if_pos (show _ ∧ _ from complete)]
      exact .completed state (takes (not_lt.mp big)) complete
    · simp only [if_neg (show ¬ (_ ∧ _) from complete)]
      exact .stored state (takes (not_lt.mp big)) complete

theorem refusal_eq_none : refusal lim fields = none ↔
    fields.index < fields.total ∧ fields.total ≤ lim.maxFragmentsPerAssembly := by
  unfold refusal
  repeat' split
  all_goals simp only [reduceCtorEq, false_iff, true_iff]
  all_goals omega

theorem inconsistency_eq_none : inconsistency state fields = none ↔
    state.total = fields.total ∧ state.originalMessageType = fields.originalType ∧
      ∀ chunk, state.chunks.get? fields.index = some chunk → chunk = fields.data := by
  unfold inconsistency
  by_cases total : state.total = fields.total
  · by_cases type : state.originalMessageType = fields.originalType
    · cases present : state.chunks.get? fields.index with
      | none => simp [total, type]
      | some chunk => by_cases same : chunk = fields.data <;> simp [total, type, same]
    · simp [total, type]
  · simp [total]

theorem assemble_spec (lim : ReassemblyLimits) (now : Seconds) (key : AssemblyKey)
    (fields : FragmentFields) (held : Option AssemblyState) : Assembles lim now key fields held
    (assemble lim now key fields held).1 (assemble lim now key fields held).2 := by
  unfold assemble
  cases refused : refusal lim fields with
  | some e => exact .refused e
  | none =>
    obtain ⟨index, total⟩ := refusal_eq_none.mp refused
    cases held with
    | none => exact assembles_collect fun fits => ⟨Or.inr ⟨rfl, rfl⟩, index, total, rfl, rfl, rfl, fits⟩
    | some state =>
      simp only
      cases mismatch : inconsistency state fields with
      | some e => exact .dropped e
      | none =>
        obtain ⟨sameTotal, sameType, _⟩ := inconsistency_eq_none.mp mismatch
        simp only
        by_cases present : state.chunks.contains fields.index = true
        · rw [if_pos present]
          exact .repeated state rfl
        · rw [if_neg present]
          refine assembles_collect fun fits =>
            ⟨Or.inl rfl, index, total, sameTotal, sameType, ?_, fits⟩
          simpa [InsertionMap.contains] using present

/-- A new assembly holds nothing yet. -/
theorem opened_waiting (index : fields.index < fields.total)
    (total : fields.total ≤ lim.maxFragmentsPerAssembly) :
    Waiting lim (opened key fields.total fields.originalType now) where
  incomplete := Nat.zero_lt_of_lt index
  indices := by simp [opened]
  total_le := total
  bytes := rfl
  bytes_le := Nat.zero_le _

theorem keys_subset (indices : ∀ i chunk, state.chunks.get? i = some chunk → i < state.total) :
    state.chunks.keys ⊆ List.range state.total := by
  intro i hi
  obtain ⟨e, he, rfl⟩ := List.mem_map.mp hi
  exact List.mem_range.mpr (indices _ _ (InsertionMap.get?_eq_some_of_mem he))

/-- Distinct indices below the total, as many as it, are all indices. -/
theorem keys_perm (indices : ∀ i chunk, state.chunks.get? i = some chunk → i < state.total)
    (full : state.chunks.size = state.total) :
    state.chunks.keys.Perm (List.range state.total) := by
  refine (List.Nodup.subperm state.chunks.nodup (keys_subset indices)).perm_of_length_le ?_
  simpa [InsertionMap.keys, InsertionMap.size] using full.ge

theorem size_le_total (indices : ∀ i chunk, state.chunks.get? i = some chunk → i < state.total) :
    state.chunks.size ≤ state.total := by
  have fewer := (List.Nodup.subperm state.chunks.nodup (keys_subset indices)).length_le
  simpa [InsertionMap.keys, InsertionMap.size] using fewer

theorem allPresent_iff :
    state.allPresent ↔ ∀ i < state.total, ∃ chunk, state.chunks.get? i = some chunk := by
  simp only [allPresent, List.all_eq_true, List.mem_range, InsertionMap.contains_iff]

/-- Complete means that no index is missing, and counting the chunks decides it. -/
theorem complete_iff (indices : ∀ i chunk, state.chunks.get? i = some chunk → i < state.total) :
    Complete state ↔ state.chunks.size = state.total := by
  refine ⟨And.left, fun full => ⟨full, allPresent_iff.mpr fun i hi => ?_⟩⟩
  obtain ⟨e, he, rfl⟩ :=
    List.mem_map.mp ((keys_perm indices full).mem_iff.mpr (List.mem_range.mpr hi))
  exact ⟨_, InsertionMap.get?_eq_some_of_mem he⟩

theorem complete_iff_allPresent
    (indices : ∀ i chunk, state.chunks.get? i = some chunk → i < state.total) :
    Complete state ↔ ∀ i < state.total, ∃ chunk, state.chunks.get? i = some chunk := by
  refine ⟨fun complete => allPresent_iff.mp complete.2, fun all => ?_⟩
  have subset : List.range state.total ⊆ state.chunks.keys := by
    intro i hi
    obtain ⟨chunk, found⟩ := all i (List.mem_range.mp hi)
    exact List.mem_map.mpr ⟨_, InsertionMap.get?_eq_some.mp found, rfl⟩
  have more := (List.Nodup.subperm List.nodup_range subset).length_le
  refine ⟨le_antisymm (size_le_total indices) ?_, allPresent_iff.mpr all⟩
  simpa [InsertionMap.keys, InsertionMap.size] using more

/-- The joined bytes of a complete assembly are the bytes it counted. -/
theorem joinChunks_length
    (indices : ∀ i chunk, state.chunks.get? i = some chunk → i < state.total)
    (full : state.chunks.size = state.total) :
    state.joinChunks.length = state.chunks.total List.length := by
  have counted : (state.chunks.keys.map fun i => ((state.chunks.get? i).getD []).length).sum =
      state.chunks.total List.length := by
    simp only [InsertionMap.keys, InsertionMap.total, List.map_map]
    refine congrArg List.sum (List.map_congr_left fun e he => ?_)
    simp [InsertionMap.get?_eq_some_of_mem he]
  rw [← counted, ((keys_perm indices full).map _).sum_eq]
  simp [joinChunks, List.length_flatMap]

variable (takes : Takes lim now key fields held state) (waiting : Waiting lim state)
include takes waiting

theorem withChunk_indices : ∀ i chunk,
    (state.withChunk fields.index fields.data).chunks.get? i = some chunk →
      i < (state.withChunk fields.index fields.data).total := by
  intro i chunk h
  simp only [withChunk, InsertionMap.get?_set] at h ⊢
  by_cases here : i = fields.index
  · rw [here, takes.total]
    exact takes.index_lt
  · rw [if_neg here] at h
    exact waiting.indices i chunk h

theorem withChunk_bytes : (state.withChunk fields.index fields.data).totalBytes =
    (state.withChunk fields.index fields.data).chunks.total List.length := by
  simp only [withChunk, InsertionMap.total_set_new takes.fresh, waiting.bytes]

theorem withChunk_sound
    (incomplete : ¬ Complete (state.withChunk fields.index fields.data)) :
    Sound lim (state.withChunk fields.index fields.data) := by
  have size : (state.withChunk fields.index fields.data).chunks.size = state.chunks.size + 1 :=
    InsertionMap.size_set_new takes.fresh _
  have lower := waiting.incomplete
  rw [complete_iff (withChunk_indices takes waiting)] at incomplete
  refine ⟨⟨?_, withChunk_indices takes waiting, waiting.total_le, withChunk_bytes takes waiting,
    takes.fits⟩, by omega⟩
  have : (state.withChunk fields.index fields.data).total = state.total := rfl
  omega

theorem completed_length (complete : Complete (state.withChunk fields.index fields.data)) :
    (state.withChunk fields.index fields.data).joinChunks.length ≤ lim.maxReassembledBytes := by
  rw [joinChunks_length (withChunk_indices takes waiting) complete.1,
    ← withChunk_bytes takes waiting]
  exact takes.fits

end OneAssembly

theorem Takes.waiting {lim : ReassemblyLimits} {now : Seconds} {key : AssemblyKey}
    {fields : FragmentFields} {held : Option AssemblyState} {state : AssemblyState}
    (takes : Takes lim now key fields held state) (sound : ∀ s, held = some s → Sound lim s) :
    Waiting lim state := by
  rcases takes.source with here | ⟨_, rfl⟩
  · exact (sound state here).toWaiting
  · exact opened_waiting takes.index_lt takes.total_le

section Bounds
variable {lim : ReassemblyLimits} {r t : FragmentReassembler} {key : AssemblyKey}

theorem storeChunk_size {state : AssemblyState} {index : Nat} {chunkData : Bytes}
    (present : r.assemblies.contains key) :
    (r.storeChunk lim key state index chunkData).2.assemblies.size ≤ r.assemblies.size := by
  unfold storeChunk
  split
  · exact InsertionMap.size_erase_le _ _
  · dsimp only
    split
    · exact InsertionMap.size_erase_le _ _
    · exact (InsertionMap.size_set present _).le

theorem makeRoom_size {state : AssemblyState} (absent : r.assemblies.get? key = none)
    (active : r.assemblies.size ≤ lim.maxActiveAssemblies) :
    (r.makeRoom lim key state).assemblies.size ≤ lim.maxActiveAssemblies := by
  have positive := lim.maxActiveAssemblies_pos
  unfold makeRoom
  split
  · have gone : r.assemblies.popFirst.get? key = none := by
      rcases InsertionMap.get?_popFirst (m := r.assemblies) (k := key) with same | ⟨none, _⟩
      · exact same.trans absent
      · exact none
    rw [InsertionMap.size_set_new gone, InsertionMap.size_popFirst]
    omega
  · rw [InsertionMap.size_set_new absent]
    omega

theorem insertChunk_size (now : Seconds) (senderId : Bytes) (fields : FragmentFields)
    (active : r.assemblies.size ≤ lim.maxActiveAssemblies) :
    (r.insertChunk lim now senderId fields).2.assemblies.size ≤ lim.maxActiveAssemblies := by
  simp only [insertChunk]
  cases refusal lim fields with
  | some e => exact active
  | none =>
    cases held : r.assemblies.get? (senderId, fields.fragmentId) with
    | none =>
      exact (storeChunk_size (by simp [makeRoom, InsertionMap.contains])).trans
        (makeRoom_size held active)
    | some state =>
      have moved := InsertionMap.size_moveToEnd r.assemblies (senderId, fields.fragmentId)
      simp only
      cases inconsistency state fields with
      | some e => exact ((InsertionMap.size_erase_le _ _).trans moved.le).trans active
      | none =>
        simp only
        split
        · exact moved.le.trans active
        · exact ((storeChunk_size (by simp [InsertionMap.contains, held])).trans moved.le).trans
            active

/-- The fragments of a call are all that can add to an entry. -/
theorem view_cases (lim : ReassemblyLimits) (key : AssemblyKey) (call : Call) (held : Option AssemblyState) :
    (∃ senderId fields, call.fragment = some (senderId, fields) ∧
      key = (senderId, fields.fragmentId) ∧
      view lim key call held = assemble lim call.now key fields held) ∨
    (view lim key call held).2 = held ∨ (view lim key call held).2 = none := by
  cases carries : call.fragment with
  | some found =>
    obtain ⟨senderId, fields⟩ := found
    have seen : view lim key call held = if (senderId, fields.fragmentId) = key
        then assemble lim call.now key fields held else (.ok none, held) := by
      cases call <;> simp_all [view, Call.fragment]
    by_cases own : (senderId, fields.fragmentId) = key
    · exact Or.inl ⟨senderId, fields, rfl, own.symm, by rw [seen, if_pos own]⟩
    · exact Or.inr (Or.inl (by rw [seen, if_neg own]))
  | none =>
    refine Or.inr ?_
    cases call with
    | pruneStale now maxAge =>
      cases held with
      | none => exact Or.inl rfl
      | some state =>
        by_cases stale : maxAge < now - state.createdAt
        · exact Or.inr (by simp [view, Option.filter, stale])
        · exact Or.inl (by simp [view, Option.filter, stale])
    | clear => exact Or.inr rfl
    | addFragment | addFragmentPacket => exact Or.inl (by simp [view, carries])

theorem view_sound {call : Call} {held : Option AssemblyState}
    (sound : ∀ s, held = some s → Sound lim s) :
    ∀ s, (view lim key call held).2 = some s → Sound lim s := by
  rcases view_cases lim key call held with
    ⟨senderId, fields, _, _, same⟩ | same | same
  · rw [same]
    have spec := assemble_spec lim call.now key fields held
    generalize (assemble lim call.now key fields held).1 = result at spec
    generalize (assemble lim call.now key fields held).2 = left at spec
    cases spec with
    | refused => exact sound
    | dropped => simp
    | repeated state here => exact here ▸ sound
    | stored state takes incomplete =>
      rintro s ⟨⟩
      exact withChunk_sound takes (takes.waiting sound) incomplete
    | completed => simp
  · rw [same]
    exact sound
  · simp [same]

theorem perform_bounded {call : Call} (bounded : Bounded lim r) :
    Bounded lim (r.perform lim call).2 := by
  constructor
  · cases carries : call.fragment with
    | some found =>
      rw [perform_fragment carries]
      exact insertChunk_size _ _ _ bounded.active
    | none =>
      cases call with
      | pruneStale now maxAge => exact (List.length_filter_le _ _).trans bounded.active
      | clear => exact Nat.zero_le _
      | addFragment | addFragmentPacket =>
        rw [(perform_unreadable lim r carries (by simp) (by simp)).2]
        exact bounded.active
  · intro key state present
    rcases perform_entry lim r key call with same | ⟨gone, _⟩
    · exact view_sound (bounded.sound key) state (same ▸ present)
    · rw [gone] at present
      cases present

end Bounds

end Bitchat.Protocol.FragmentReassembler
