import Bitchat.Protocol.FragmentRoundTrip
import Mathlib.Algebra.Order.BigOperators.Group.List

/-! Delivering the fragments of one packet to a reassembler, in any order, with
repetitions and among other calls. The assembly of their key holds exactly the
chunks delivered so far. -/
namespace Bitchat.Protocol.FragmentReassembler
open AssemblyState

/-- The assembly holds the chunks whose indices were delivered, none before the first. -/
def HoldsChunks (total type : Nat) (chunkAt : Nat → Bytes) (delivered : Nat → Prop)
    (held : Option AssemblyState) : Prop :=
  match held with
  | none => ∀ i, ¬ delivered i
  | some state => state.total = total ∧ state.originalMessageType = type ∧
      state.totalBytes = state.chunks.total List.length ∧
      ∀ i chunk, state.chunks.get? i = some chunk ↔ delivered i ∧ chunk = chunkAt i

section OneFragment
variable {lim : ReassemblyLimits} {now : Seconds} {key : AssemblyKey} {total type index : Nat}
  {chunkAt : Nat → Bytes} {delivered : Nat → Prop} {held : Option AssemblyState}

/-- No more than `size` bytes for each stored chunk. -/
theorem total_le_of_short {m : InsertionMap Nat Bytes} (size : Nat)
    (short : ∀ i chunk, m.get? i = some chunk → chunk.length ≤ size) :
    m.total List.length ≤ m.size * size := by
  have bound := List.sum_le_card_nsmul (m.entries.map fun e => e.2.length) size fun n hn => by
    obtain ⟨e, he, rfl⟩ := List.mem_map.mp hn
    exact short _ _ (InsertionMap.get?_eq_some_of_mem he)
  simpa [InsertionMap.total, InsertionMap.size] using bound

section Collect
variable {state : AssemblyState}
  (holds : HoldsChunks total type chunkAt delivered (some state))
  (below : ∀ i, delivered i → i < total) (fresh : ¬ delivered index)
include holds fresh

theorem HoldsChunks.withChunk :
    HoldsChunks total type chunkAt (fun i => delivered i ∨ i = index)
      (some (state.withChunk index (chunkAt index))) := by
  obtain ⟨sameTotal, sameType, bytes, chunks⟩ := holds
  have absent : state.chunks.get? index = none := by
    rw [Option.eq_none_iff_forall_ne_some]
    exact fun chunk found => fresh ((chunks index chunk).mp found).1
  refine ⟨sameTotal, sameType, ?_, fun i chunk => ?_⟩
  · simp only [AssemblyState.withChunk, InsertionMap.total_set_new absent, bytes]
  · simp only [AssemblyState.withChunk, InsertionMap.get?_set]
    by_cases same : i = index
    · subst same
      simp [eq_comm]
    · simp [same, chunks]

include below

theorem HoldsChunks.collect (index_lt : index < total)
    (short : ∀ i < total, (chunkAt i).length ≤ fragmentChunkSize)
    (room : total * fragmentChunkSize ≤ lim.maxReassembledBytes) :
    ((∃ i < total, ¬ (delivered i ∨ i = index)) →
      FragmentReassembler.collect lim state index (chunkAt index) =
        (.ok none, some (state.withChunk index (chunkAt index)))) ∧
    ((∀ i < total, delivered i ∨ i = index) →
      (FragmentReassembler.collect lim state index (chunkAt index)).1 =
        .ok (some ((List.range total).flatMap chunkAt))) := by
  obtain ⟨sameTotal, _, bytes, chunks⟩ := holds.withChunk fresh
  have below' : ∀ i, (delivered i ∨ i = index) → i < total := by
    rintro i (h | rfl)
    · exact below i h
    · exact index_lt
  have indices : ∀ i chunk, (state.withChunk index (chunkAt index)).chunks.get? i = some chunk →
      i < (state.withChunk index (chunkAt index)).total :=
    fun i chunk found => sameTotal.symm ▸ below' i ((chunks i chunk).mp found).1
  have fits : ¬ lim.maxReassembledBytes < state.totalBytes + (chunkAt index).length := by
    have most := total_le_of_short fragmentChunkSize fun i chunk found => by
      obtain ⟨here, rfl⟩ := (chunks i chunk).mp found
      exact short i (below' i here)
    have fewer := Nat.mul_le_mul_right fragmentChunkSize (size_le_total indices)
    rw [sameTotal] at fewer
    have counted : state.totalBytes + (chunkAt index).length =
        (state.withChunk index (chunkAt index)).totalBytes := rfl
    omega
  have complete := complete_iff_allPresent indices
  rw [sameTotal] at complete
  simp only [FragmentReassembler.collect, if_neg fits]
  constructor
  · rintro ⟨i, hi, missing⟩
    refine if_neg fun full => missing ?_
    obtain ⟨chunk, found⟩ := complete.mp full i hi
    exact ((chunks i chunk).mp found).1
  · intro all
    have full : _ ∧ _ := complete.mpr fun i hi => ⟨_, (chunks i _).mpr ⟨all i hi, rfl⟩⟩
    rw [if_pos full]
    simp only [joinChunks, sameTotal, Except.ok.injEq, Option.some.injEq]
    refine List.flatMap_congr fun i hi => ?_
    rw [(chunks i _).mpr ⟨all i (List.mem_range.mp hi), rfl⟩, Option.getD_some]

end Collect

variable (holds : HoldsChunks total type chunkAt delivered held)
  (below : ∀ i, delivered i → i < total) (index_lt : index < total)
  (total_le : total ≤ lim.maxFragmentsPerAssembly)
  (short : ∀ i < total, (chunkAt i).length ≤ fragmentChunkSize)
  (room : total * fragmentChunkSize ≤ lim.maxReassembledBytes)
  (waits : ∃ i < total, ¬ delivered i)
include holds below index_lt total_le short room waits

/-- One fragment of the packet: the result and the assembly after it. -/
theorem assemble_own {result : Reassembled} {left : Option AssemblyState}
    (assembled : assemble lim now key ⟨key.2, index, total, type, chunkAt index⟩ held =
      (result, left)) :
    ((∃ i < total, ¬ (delivered i ∨ i = index)) → result = .ok none ∧
      HoldsChunks total type chunkAt (fun i => delivered i ∨ i = index) left) ∧
    ((∀ i < total, delivered i ∨ i = index) →
      result = .ok (some ((List.range total).flatMap chunkAt))) := by
  have accepted : refusal lim ⟨key.2, index, total, type, chunkAt index⟩ = none :=
    refusal_eq_none.mpr ⟨index_lt, total_le⟩
  simp only [assemble, accepted] at assembled
  cases held with
  | none =>
    have start : HoldsChunks total type chunkAt delivered (some (opened key total type now)) :=
      ⟨rfl, rfl, rfl, fun i chunk => by simp [opened, show ¬ delivered i from holds i]⟩
    have fresh : ¬ delivered index := holds index
    have collected := start.collect below fresh index_lt short room
    simp only at assembled
    constructor
    · intro missing
      rw [collected.1 missing, Prod.mk.injEq] at assembled
      exact ⟨assembled.1.symm, assembled.2 ▸ start.withChunk fresh⟩
    · intro all
      rw [← collected.2 all, assembled]
  | some state =>
    obtain ⟨sameTotal, sameType, bytes, chunks⟩ := holds
    have consistent : inconsistency state ⟨key.2, index, total, type, chunkAt index⟩ = none :=
      inconsistency_eq_none.mpr ⟨sameTotal, sameType, fun chunk found => ((chunks _ _).mp found).2⟩
    simp only [consistent] at assembled
    by_cases again : delivered index
    · have present : state.chunks.contains index = true :=
        InsertionMap.contains_iff.mpr ⟨_, (chunks index _).mpr ⟨again, rfl⟩⟩
      have same : (fun i => delivered i ∨ i = index) = delivered := by
        funext i
        exact propext ⟨fun h => h.elim id fun hi => hi ▸ again, Or.inl⟩
      rw [present, if_pos rfl, Prod.mk.injEq] at assembled
      rw [same]
      refine ⟨fun _ => ⟨assembled.1.symm, assembled.2 ▸ ⟨sameTotal, sameType, bytes, chunks⟩⟩,
        fun all => ?_⟩
      obtain ⟨i, hi, missing⟩ := waits
      exact absurd ((all i hi).elim id fun h => h ▸ again) missing
    · have absent : state.chunks.contains index = false := by
        rw [← Bool.not_eq_true, InsertionMap.contains_iff]
        rintro ⟨chunk, found⟩
        exact again ((chunks index chunk).mp found).1
      have here : HoldsChunks total type chunkAt delivered (some state) :=
        ⟨sameTotal, sameType, bytes, chunks⟩
      have collected := here.collect below again index_lt short room
      rw [absent, if_neg (by simp)] at assembled
      constructor
      · intro missing
        rw [collected.1 missing, Prod.mk.injEq] at assembled
        exact ⟨assembled.1.symm, assembled.2 ▸ here.withChunk again⟩
      · intro all
        rw [← collected.2 all, assembled]

end OneFragment

/-- One of the calls delivered the packet. -/
def Delivered (f : BitchatPacket) (calls : History) : Prop :=
  ∃ e ∈ calls, ∃ now, e.label.1 = .addFragmentPacket now f

/-- Fragments of one key, in any order and number, among calls that concern other keys and
never evict the assembly of this one. -/
structure Delivery (key : AssemblyKey) (fragments : List BitchatPacket) (calls : History) :
    Prop where
  ownOrIdle : ∀ e ∈ calls, (∃ now, ∃ f ∈ fragments, e.label.1 = .addFragmentPacket now f) ∨
    relevant key e.label.1 = false
  neverEvicted : ∀ e ∈ calls, relevant key e.label.1 = false →
    e.before.assemblies.get? key ≠ none → e.after.assemblies.get? key ≠ none

theorem Delivery.append_left {key : AssemblyKey} {fragments : List BitchatPacket}
    {calls more : History} (delivery : Delivery key fragments (calls ++ more)) :
    Delivery key fragments calls where
  ownOrIdle e he := delivery.ownOrIdle e (List.mem_append_left _ he)
  neverEvicted e he := delivery.neverEvicted e (List.mem_append_left _ he)

/-- The fragment packets of one message: one for each index. -/
structure Fragments (senderId fragmentId : Bytes) (type total : Nat) (chunkAt : Nat → Bytes)
    (fragments : List BitchatPacket) : Prop where
  covers : ∀ i < total, ∃ f ∈ fragments, Carries senderId fragmentId type total i (chunkAt i) f
  indexed : ∀ f ∈ fragments, ∃ i < total, Carries senderId fragmentId type total i (chunkAt i) f
  unique : ∀ f ∈ fragments, ∀ g ∈ fragments, ∀ i, Carries senderId fragmentId type total i
    (chunkAt i) f → Carries senderId fragmentId type total i (chunkAt i) g → f = g

section Run
variable {lim : ReassemblyLimits} {senderId fragmentId : Bytes} {type total : Nat}
  {chunkAt : Nat → Bytes} {fragments : List BitchatPacket} {start r : FragmentReassembler}
  {history : History}

/-- The indices delivered by some calls. -/
def Delivers (senderId fragmentId : Bytes) (type total : Nat) (chunkAt : Nat → Bytes)
    (fragments : List BitchatPacket) (calls : History) (i : Nat) : Prop :=
  ∃ f ∈ fragments, Carries senderId fragmentId type total i (chunkAt i) f ∧ Delivered f calls

theorem step_other {call : Call} {result : Reassembled} {t : FragmentReassembler}
    {key : AssemblyKey} (step : Step lim r (call, result) t) (idle : relevant key call = false)
    (stays : r.assemblies.get? key ≠ none → t.assemblies.get? key ≠ none) :
    t.assemblies.get? key = r.assemblies.get? key := by
  have entry := perform_entry lim r key call
  rw [show r.perform lim call = (result, t) from step, view_irrelevant idle] at entry
  rcases entry with same | ⟨gone, _⟩
  · exact same
  · by_cases absent : r.assemblies.get? key = none
    · rw [gone, absent]
    · exact absurd gone (stays absent)

theorem step_own {now : Seconds} {f : BitchatPacket} {result : Reassembled}
    {t : FragmentReassembler} {index : Nat} {chunk : Bytes}
    (step : Step lim r (.addFragmentPacket now f, result) t)
    (carries : Carries senderId fragmentId type total index chunk f) :
    assemble lim now (senderId, fragmentId) ⟨fragmentId, index, total, type, chunk⟩
      (r.assemblies.get? (senderId, fragmentId)) =
      (result, t.assemblies.get? (senderId, fragmentId)) := by
  have fragment : (Call.addFragmentPacket now f).fragment =
      some (senderId, ⟨fragmentId, index, total, type, chunk⟩) := by
    simp [Call.fragment, carries.fields, carries.senderId]
  have performed : r.perform lim (.addFragmentPacket now f) = (result, t) := step
  rw [perform_fragment fragment] at performed
  have seen := insertChunk_view lim r (Call.now (.addFragmentPacket now f)) senderId
    ⟨fragmentId, index, total, type, chunk⟩
  rw [performed] at seen
  exact Prod.ext seen.1.symm seen.2.symm

theorem delivers_snoc_own (history : History) (r t : FragmentReassembler) (now : Seconds)
    (result : Reassembled) {f : BitchatPacket} {index : Nat} (own : f ∈ fragments)
    (carries : Carries senderId fragmentId type total index (chunkAt index) f) :
    Delivers senderId fragmentId type total chunkAt fragments
        (history ++ [⟨r, (.addFragmentPacket now f, result), t⟩]) =
      fun i => Delivers senderId fragmentId type total chunkAt fragments history i ∨ i = index := by
  funext i
  refine propext ⟨?_, ?_⟩
  · rintro ⟨g, mem, carried, e, he, at_time, same⟩
    rcases List.mem_append.mp he with he | he
    · exact Or.inl ⟨g, mem, carried, e, he, at_time, same⟩
    · rw [List.mem_singleton.mp he] at same
      obtain ⟨-, rfl⟩ := Call.addFragmentPacket.inj same
      have fields := carried.fields.symm.trans carries.fields
      simp only [Except.ok.injEq, FragmentFields.mk.injEq] at fields
      exact Or.inr fields.2.1
  · rintro (⟨g, mem, carried, e, he, delivered⟩ | rfl)
    · exact ⟨g, mem, carried, e, List.mem_append_left _ he, delivered⟩
    · exact ⟨f, own, carries, _, List.mem_append_right _ (List.mem_singleton_self _), now, rfl⟩

theorem delivers_snoc_other {call : Call} {result : Reassembled} {t : FragmentReassembler}
    (idle : relevant (senderId, fragmentId) call = false) :
    Delivers senderId fragmentId type total chunkAt fragments (history ++ [⟨r, (call, result), t⟩]) =
      Delivers senderId fragmentId type total chunkAt fragments history := by
  funext i
  refine propext ⟨?_, ?_⟩
  · rintro ⟨g, mem, carried, e, he, at_time, same⟩
    rcases List.mem_append.mp he with he | he
    · exact ⟨g, mem, carried, e, he, at_time, same⟩
    · rw [List.mem_singleton.mp he] at same
      simp only at same
      rw [same] at idle
      simp [relevant, Call.key, Call.fragment, carried.fields, carried.senderId] at idle
  · rintro ⟨g, mem, carried, e, he, delivered⟩
    exact ⟨g, mem, carried, e, List.mem_append_left _ he, delivered⟩

variable (parts : Fragments senderId fragmentId type total chunkAt fragments)
include parts

theorem missing_iff : (∃ f ∈ fragments, ¬ Delivered f history) ↔
    ∃ i < total, ¬ Delivers senderId fragmentId type total chunkAt fragments history i := by
  constructor
  · rintro ⟨f, mem, missing⟩
    obtain ⟨i, hi, carries⟩ := parts.indexed f mem
    refine ⟨i, hi, ?_⟩
    rintro ⟨g, mem', carries', delivered⟩
    exact missing (parts.unique g mem' f mem i carries' carries ▸ delivered)
  · rintro ⟨i, hi, missing⟩
    obtain ⟨f, mem, carries⟩ := parts.covers i hi
    exact ⟨f, mem, fun delivered => missing ⟨f, mem, carries, delivered⟩⟩

theorem delivers_lt {i : Nat} (delivers : Delivers senderId fragmentId type total chunkAt fragments history i) :
    i < total := by
  obtain ⟨g, mem, carried, _⟩ := delivers
  obtain ⟨j, hj, carried'⟩ := parts.indexed g mem
  have fields := carried.fields.symm.trans carried'.fields
  simp only [Except.ok.injEq, FragmentFields.mk.injEq] at fields
  exact fields.2.1 ▸ hj

variable (total_le : total ≤ lim.maxFragmentsPerAssembly)
  (short : ∀ i < total, (chunkAt i).length ≤ fragmentChunkSize)
  (room : total * fragmentChunkSize ≤ lim.maxReassembledBytes)
  (absent : start.assemblies.get? (senderId, fragmentId) = none)
include total_le short room absent

/-- While a fragment is missing, the assembly holds what was delivered and every delivery of
a fragment returned nothing. -/
theorem run_holds (run : Run (Step lim) start history r)
    (delivery : Delivery (senderId, fragmentId) fragments history)
    (missing : ∃ f ∈ fragments, ¬ Delivered f history) :
    HoldsChunks total type chunkAt
        (Delivers senderId fragmentId type total chunkAt fragments history)
        (r.assemblies.get? (senderId, fragmentId)) ∧
      ∀ e ∈ history, ∀ now, ∀ f ∈ fragments, e.label.1 = .addFragmentPacket now f →
        e.label.2 = .ok none := by
  induction run with
  | nil =>
    rw [absent]
    refine ⟨?_, by simp⟩
    rintro i ⟨_, _, _, e, he, _⟩
    exact absurd he (List.not_mem_nil)
  | @snoc history r label t _ step ih =>
    obtain ⟨call, result⟩ := label
    have missingBefore : ∃ f ∈ fragments, ¬ Delivered f history := by
      obtain ⟨f, mem, not⟩ := missing
      exact ⟨f, mem, fun ⟨e, he, at_time⟩ => not ⟨e, List.mem_append_left _ he, at_time⟩⟩
    obtain ⟨holds, quiet⟩ := ih delivery.append_left missingBefore
    have last := List.mem_append_right history
      (List.mem_singleton_self (⟨r, (call, result), t⟩ : Taken _ _))
    rcases delivery.ownOrIdle _ last with ⟨now, f, own, same⟩ | idle
    · simp only at same
      subst same
      obtain ⟨index, index_lt, carries⟩ := parts.indexed f own
      have assembled := assemble_own holds (fun _ => delivers_lt parts) index_lt total_le short room
        ((missing_iff parts).mp missingBefore) (step_own step carries)
      have delivers := delivers_snoc_own history r t now result own carries
      have still := (missing_iff parts).mp missing
      rw [delivers] at still ⊢
      obtain ⟨none, holds'⟩ := assembled.1 still
      refine ⟨holds', fun e he now' g mem same => ?_⟩
      rcases List.mem_append.mp he with he | he
      · exact quiet e he now' g mem same
      · exact List.mem_singleton.mp he ▸ none
    · have same := step_other step idle (delivery.neverEvicted _ last idle)
      rw [same, delivers_snoc_other idle]
      refine ⟨holds, fun e he now' g mem called => ?_⟩
      rcases List.mem_append.mp he with he | he
      · exact quiet e he now' g mem called
      · obtain ⟨i, _, carries⟩ := parts.indexed g mem
        rw [List.mem_singleton.mp he] at called
        simp only at called
        rw [called] at idle
        simp [relevant, Call.key, Call.fragment, carries.fields, carries.senderId] at idle

/-- The delivery after which no fragment is missing returns the joined chunks. -/
theorem run_completes {last : Taken FragmentReassembler (Call × Reassembled)} {now : Seconds}
    {f : BitchatPacket} (run : Run (Step lim) start (history ++ [last]) r)
    (delivery : Delivery (senderId, fragmentId) fragments (history ++ [last]))
    (missing : ∃ f ∈ fragments, ¬ Delivered f history) (own : f ∈ fragments)
    (call : last.label.1 = .addFragmentPacket now f)
    (all : ∀ f ∈ fragments, Delivered f (history ++ [last])) :
    last.label.2 = .ok (some ((List.range total).flatMap chunkAt)) := by
  obtain ⟨before, step⟩ := run.split
  obtain ⟨holds, _⟩ := run_holds parts total_le short room absent before delivery.append_left
    missing
  obtain ⟨r, ⟨called, result⟩, t⟩ := last
  simp only at call
  subst call
  obtain ⟨index, index_lt, carries⟩ := parts.indexed f own
  have assembled := assemble_own holds (fun _ => delivers_lt parts) index_lt total_le short room
    ((missing_iff parts).mp missing) (step_own step carries)
  have delivers := delivers_snoc_own history r t now result own carries
  refine assembled.2 fun i hi => ?_
  by_contra absent
  rw [← congrFun delivers i] at absent
  obtain ⟨g, mem, not⟩ := (missing_iff parts).mpr ⟨i, hi, absent⟩
  exact not (all g mem)

end Run

section RoundTrip
variable {p : BitchatPacket} {filler : Nat → UInt8} {addPadding : Bool} {encoded fragmentId : Bytes}
  {ttl timestamp : Int}

/-- The chunk of a long packet at an index. -/
def chunkAt (encoded : Bytes) (i : Nat) : Bytes :=
  Bytes.slice encoded (i * fragmentChunkSize) (i * fragmentChunkSize + fragmentChunkSize)

theorem chunkAt_length (encoded : Bytes) (i : Nat) :
    (chunkAt encoded i).length ≤ fragmentChunkSize := by
  rw [chunkAt, Bytes.slice_length]
  omega

/-- Fragmenting bytes that are too long makes one fragment for each chunk, in their order. -/
theorem fragmentEncodedPacket_carries {senderId : Bytes} {type : Nat}
    (long : fragmentationThreshold < encoded.length) (most : encoded.length ≤ 65884)
    (sender : senderId.length = senderIdSize) (idSize : fragmentId.length = fragmentIdSize)
    (type_le : type ≤ 255) (ttl_byte : 0 ≤ ttl ∧ ttl ≤ 255)
    (timestamp_word : 0 ≤ timestamp ∧ timestamp ≤ 0xFFFFFFFFFFFFFFFF) :
    ∃ fragments, fragmentEncodedPacket encoded senderId type fragmentId ttl timestamp = .ok fragments ∧
      fragments.length ≤ 440 ∧
      (∀ i (h : i < fragments.length),
        Carries senderId fragmentId type fragments.length i (chunkAt encoded i) fragments[i]) ∧
      (List.range fragments.length).flatMap (chunkAt encoded) = encoded ∧
      fragments.length = (encoded.length + fragmentChunkSize - 1) / fragmentChunkSize := by
  simp only [fragmentationThreshold] at long
  have count := chunksOf_length encoded fragmentChunkSize
  have size : fragmentChunkSize = 150 := rfl
  rw [size] at count
  have nonempty : encoded ≠ [] := by rintro rfl; simp at long
  have split : splitChunks encoded = .ok (chunksOf encoded fragmentChunkSize) := by
    have most' : maxFragmentsPerAssembly = 1000 := rfl
    simp only [splitChunks, size, count, most']
    rw [if_neg (by omega), if_neg nonempty, if_neg (by omega), if_neg (by omega)]
  have made : ∀ i < (chunksOf encoded fragmentChunkSize).length, ∃ f,
      makeFragment senderId fragmentId type (chunksOf encoded fragmentChunkSize).length ttl timestamp
        (chunkAt encoded i, i) = .ok f ∧
      Carries senderId fragmentId type (chunksOf encoded fragmentChunkSize).length i
        (chunkAt encoded i) f := by
    intro i h
    exact makeFragment_eq sender idSize h (by rw [size, count]; omega)
      (by rw [size, count, maxFragmentsPerAssembly]; omega) type_le (chunkAt_length encoded i)
      ttl_byte timestamp_word
  obtain ⟨fragments, all, each⟩ := mapM_ok (f := makeFragment senderId fragmentId type
      (chunksOf encoded fragmentChunkSize).length ttl timestamp)
    (l := (chunksOf encoded fragmentChunkSize).zipIdx) fun x hx => by
      obtain ⟨i, hi, rfl⟩ := List.mem_iff_getElem.mp hx
      simp only [List.length_zipIdx] at hi
      obtain ⟨f, hf, _⟩ := made i hi
      refine ⟨f, ?_⟩
      simp only [List.getElem_zipIdx, chunksOf_get, Nat.zero_add]
      exact hf
  have length : fragments.length = (chunksOf encoded fragmentChunkSize).length := by
    simpa using each.length_eq.symm
  refine ⟨fragments, ?_, by rw [length, size, count]; omega, ?_, ?_, length.trans (chunksOf_length _ _)⟩
  · unfold fragmentEncodedPacket
    rw [if_neg (by simp [shouldFragment, fragmentationThreshold, long]),
      if_neg (not_not.mpr sender), if_neg (not_not.mpr idSize), split]
    exact all
  · intro i h
    obtain ⟨f, hf, carries⟩ := made i (length ▸ h)
    have here := each.get (i := i) (by simpa using length ▸ h) h
    simp only [List.get_eq_getElem, List.getElem_zipIdx, chunksOf_get, Nat.zero_add] at here
    have same : fragments[i] = f := Except.ok.inj (here.symm.trans hf)
    rw [length, same]
    exact carries
  · rw [length]
    exact chunksOf_join (by decide)

/-- Fragments that carry one chunk each. -/
theorem Fragments.of_carries {senderId : Bytes} {type : Nat} {fragments : List BitchatPacket}
    (carried : ∀ i (h : i < fragments.length),
      Carries senderId fragmentId type fragments.length i (chunkAt encoded i) fragments[i]) :
    Fragments senderId fragmentId type fragments.length (chunkAt encoded) fragments := by
  have index_of : ∀ i j f, Carries senderId fragmentId type fragments.length i (chunkAt encoded i) f →
      Carries senderId fragmentId type fragments.length j (chunkAt encoded j) f → i = j := by
    intro i j f first second
    have fields := first.fields.symm.trans second.fields
    simp only [Except.ok.injEq, FragmentFields.mk.injEq] at fields
    exact fields.2.1
  refine ⟨?_, ?_, ?_⟩
  · intro i hi
    exact ⟨_, List.getElem_mem hi, carried i hi⟩
  · intro f hf
    obtain ⟨i, hi, rfl⟩ := List.mem_iff_getElem.mp hf
    exact ⟨i, hi, carried i hi⟩
  · intro f hf g hg i first second
    obtain ⟨j, hj, rfl⟩ := List.mem_iff_getElem.mp hf
    obtain ⟨k, hk, rfl⟩ := List.mem_iff_getElem.mp hg
    have hj' := index_of _ _ _ first (carried j hj)
    have hk' := index_of _ _ _ second (carried k hk)
    subst hj'
    subst hk'
    rfl

/-- Fragmentation and reassembly lose nothing, whatever the order of arrival. -/
theorem fragmentation_round_trip (p : BitchatPacket) (filler : Nat → UInt8) (addPadding : Bool)
    (fragmentId : Bytes) (ttl timestamp : Int) (current : p.version = currentProtocolVersion)
    (written : encodePacket filler p addPadding = .ok encoded)
    (long : fragmentationThreshold < encoded.length) (idSize : fragmentId.length = fragmentIdSize)
    (ttl_byte : 0 ≤ ttl ∧ ttl ≤ 255)
    (timestamp_word : 0 ≤ timestamp ∧ timestamp ≤ 0xFFFFFFFFFFFFFFFF) :
    ∃ fragments,
      fragmentEncodedPacket encoded p.senderId p.messageType.code fragmentId ttl timestamp =
        .ok fragments ∧
      fragments ≠ [] ∧ fragments.length = (encoded.length + fragmentChunkSize - 1) / fragmentChunkSize ∧
      (∀ i (h : i < fragments.length), Carries p.senderId fragmentId p.messageType.code fragments.length i
        (chunkAt encoded i) fragments[i]) ∧
      (List.range fragments.length).flatMap (chunkAt encoded) = encoded ∧
      (∀ f ∈ fragments, ∀ filler addPadding, ∃ wire, encodePacket filler f addPadding = .ok wire ∧
        wire.length ≤ fragmentationThreshold ∧ decodePacket wire = .ok f) ∧
      (∀ start history last r now f, Run (Step {}) start (history ++ [last]) r →
        start.assemblies.get? (p.senderId, fragmentId) = none →
        Delivery (p.senderId, fragmentId) fragments (history ++ [last]) →
        f ∈ fragments → last.label.1 = .addFragmentPacket now f →
        (∃ g ∈ fragments, ¬ Delivered g history) →
          (∀ e ∈ history, ∀ now, ∀ g ∈ fragments, e.label.1 = .addFragmentPacket now g →
            e.label.2 = .ok none) ∧
          ((∃ g ∈ fragments, ¬ Delivered g (history ++ [last])) → last.label.2 = .ok none) ∧
          ((∀ g ∈ fragments, Delivered g (history ++ [last])) →
            last.label.2 = .ok (some encoded))) ∧
      decodePacket encoded = .ok p := by
  obtain ⟨fragments, made, least, carried, joined, count⟩ := fragmentEncodedPacket_carries long
    (encodePacket_length written) p.senderId_size idSize (Nat.le_of_lt_succ p.messageType.code_lt)
    ttl_byte timestamp_word
  have parts := Fragments.of_carries carried
  have few : fragments.length ≤ ({} : ReassemblyLimits).maxFragmentsPerAssembly :=
    least.trans (by decide)
  have short : ∀ i < fragments.length, (chunkAt encoded i).length ≤ fragmentChunkSize :=
    fun i _ => chunkAt_length encoded i
  have room : fragments.length * fragmentChunkSize ≤ ({} : ReassemblyLimits).maxReassembledBytes :=
    (Nat.mul_le_mul_right _ least).trans (by decide)
  have filled : fragments ≠ [] := by
    rintro rfl
    rw [← joined] at long
    simp at long
  refine ⟨fragments, made, filled, count, carried, joined, ?_, ?_, ?_⟩
  · intro f hf filler addPadding
    obtain ⟨i, _, carries⟩ := parts.indexed f hf
    exact carries.fits (chunkAt_length encoded i) filler addPadding
  · intro start history last r now f run absent delivery own call missing
    refine ⟨?_, ?_, ?_⟩
    · exact (run_holds parts few short room absent run.split.1 delivery.append_left missing).2
    · intro still
      exact (run_holds parts few short room absent run delivery still).2 last (by simp) now f own
        call
    · intro all
      rw [← joined]
      exact run_completes parts few short room absent run delivery missing own call all
  · have round := decodePacket_encodePacket filler p current addPadding
    rw [written] at round
    exact round

/-- A message whose encoding takes five chunks. -/
def longMessage : BitchatPacket :=
  .plainMessage (List.replicate 8 1) (List.replicate 700 42) List.length_replicate
    (by rw [List.length_replicate]; omega)

def longEncoded : Bytes := wireHeader longMessage ++ wireBody longMessage

def longFragments : List BitchatPacket :=
  match fragmentEncodedPacket longEncoded longMessage.senderId longMessage.messageType.code
    (List.replicate 8 2) 7 0 with
  | .ok fragments => fragments
  | .error _ => []

/-- There is a run that delivers given packets in their order. -/
theorem exists_delivery (lim : ReassemblyLimits) (r : FragmentReassembler)
    (packets : List BitchatPacket) : ∃ history s, Run (Step lim) r history s ∧
      history.map (fun e => e.label.1) = packets.map (Call.addFragmentPacket 0) := by
  induction packets using List.reverseRecOn with
  | nil => exact ⟨[], r, .nil, rfl⟩
  | append_singleton packets f ih =>
    obtain ⟨history, s, run, calls⟩ := ih
    have step : Step lim s (.addFragmentPacket 0 f, (s.perform lim (.addFragmentPacket 0 f)).1)
        (s.perform lim (.addFragmentPacket 0 f)).2 := rfl
    exact ⟨_, _, run.snoc step, by simp [calls]⟩

/-- The fragments of a long message, delivered in reverse order. -/
theorem longFragments_reversed : ∃ history last r, Run (Step {}) new (history ++ [last]) r ∧
    (history ++ [last]).map (fun e => e.label.1) =
      longFragments.reverse.map (Call.addFragmentPacket 0) ∧
    last.label.2 = .ok (some longEncoded) := by
  have long : fragmentationThreshold < longEncoded.length := by decide +kernel
  have nodup : longFragments.Nodup := by decide +kernel
  have evaluated : fragmentEncodedPacket longEncoded longMessage.senderId
      longMessage.messageType.code (List.replicate 8 2) 7 0 = .ok longFragments := by
    decide +kernel
  obtain ⟨fragments, made, _, _, _, _, _, delivered, _⟩ := fragmentation_round_trip longMessage
    (fun _ => 0) false (List.replicate 8 2) 7 0 rfl (encodePacket_eq _ _ _)
    long (by decide) (by decide) (by decide)
  obtain rfl : longFragments = fragments := Except.ok.inj (evaluated.symm.trans made)
  obtain ⟨calls, r, run, labels⟩ := exists_delivery {} new longFragments.reverse
  obtain ⟨first, rest, shape⟩ : ∃ first rest, longFragments = first :: rest :=
    List.exists_cons_of_ne_nil (by decide +kernel)
  rw [shape, List.nodup_cons] at nodup
  have parts := labels
  rw [shape, List.reverse_cons, List.map_append] at parts
  obtain ⟨history, ends, rfl, earlier, final⟩ := List.map_eq_append_iff.mp parts
  obtain ⟨last, rfl⟩ : ∃ last, ends = [last] := List.length_eq_one_iff.mp (by
    simpa using congrArg List.length final)
  simp only [List.map_cons, List.map_nil, List.cons.injEq, and_true] at final
  have call : ∀ e ∈ history ++ [last], ∃ f ∈ longFragments, e.label.1 = .addFragmentPacket 0 f := by
    intro e he
    have mem := List.mem_map_of_mem (f := fun e => e.label.1) he
    rw [labels] at mem
    obtain ⟨f, hf, same⟩ := List.mem_map.mp mem
    exact ⟨f, List.mem_reverse.mp hf, same.symm⟩
  have brings : ∀ f ∈ longFragments, Delivered f (history ++ [last]) := by
    intro f hf
    have mem : Call.addFragmentPacket 0 f ∈ (history ++ [last]).map fun e => e.label.1 := by
      rw [labels]
      exact List.mem_map_of_mem (List.mem_reverse.mpr hf)
    obtain ⟨e, he, same⟩ := List.mem_map.mp mem
    exact ⟨e, he, 0, same⟩
  have missing : ¬ Delivered first history := by
    rintro ⟨e, he, now, same⟩
    have mem := List.mem_map_of_mem (f := fun e => e.label.1) he
    rw [earlier, same] at mem
    obtain ⟨f, hf, same⟩ := List.mem_map.mp mem
    obtain ⟨-, rfl⟩ := Call.addFragmentPacket.inj same
    exact nodup.1 (List.mem_reverse.mp hf)
  have own : first ∈ longFragments := by simp [shape]
  refine ⟨history, last, r, run, labels, (delivered new history last r 0 first run rfl ?_ own final
    ⟨first, own, missing⟩).2.2 brings⟩
  have idle : ∀ e ∈ history ++ [last], relevant (longMessage.senderId, List.replicate 8 2) e.label.1 ≠
      false := by
    intro e he
    obtain ⟨f, hf, same⟩ := call e he
    have own : ∀ f ∈ longFragments, relevant (longMessage.senderId, List.replicate 8 2)
        (.addFragmentPacket 0 f) = true := by decide +kernel
    rw [same, own f hf]
    simp
  exact ⟨fun e he => Or.inl ⟨0, call e he⟩, fun e he absent => absurd absent (idle e he)⟩

end RoundTrip

end Bitchat.Protocol.FragmentReassembler
