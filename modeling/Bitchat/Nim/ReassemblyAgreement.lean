import Bitchat.Nim.Reassembly
import Bitchat.Protocol.RejectedFragments

/-! The two reassemblers side by side. They treat every fragment alike, but a full table loses another
assembly in each: the one touched longest ago here, the one opened first there. -/
namespace Bitchat.Nim
open Bytes
open Protocol (AssemblyKey ReassemblyLimits FragmentFields Reassembled)
open Protocol.FragmentReassembler (Waiting Sound Bounded Complete collect assemble refusal inconsistency)

/-- The header behind the fragment id. -/
theorem unpack_fragmentHeader {payload : Bytes} (long : fragmentHeaderSize ≤ payload.length) :
    unpackBE [2, 2, 1] (slice payload 8 13) =
      [(readBigEndian16 payload 8).toNat, (readBigEndian16 payload 10).toNat, (byteAt payload 12).toNat] := by
  have fits : 13 ≤ payload.length := long
  rw [slice_eq_bytes fits]
  simp only [readBigEndian16, toNat_join16]
  simp [List.range_succ, unpackBE, ofBE, ofLE]

/-- A fragment as the prototype reads it. -/
def rawOf (payload : Bytes) (fields : FragmentFields) : RawFragment where
  fragmentId := fields.fragmentId
  index := fields.index
  total := fields.total
  originalType := fields.originalType
  dataOffset := fragmentHeaderSize
  dataLen := payload.length - fragmentHeaderSize

/-- Both refuse a payload or both read the same fragment from it. -/
theorem parse_agrees (payload : Bytes) :
    ((∃ e, Protocol.parseFragmentPayload payload = .error e) ∧
      ∃ status, parseFragmentPayload payload = .error status ∧ status ≠ bitchatOk) ∨
    ∃ fields, Protocol.parseFragmentPayload payload = .ok fields ∧
      parseFragmentPayload payload = .ok (rawOf payload fields) ∧
      fragmentHeaderSize ≤ payload.length ∧ fields.index < fields.total ∧
      slice payload fragmentHeaderSize (fragmentHeaderSize + (payload.length - fragmentHeaderSize)) = fields.data := by
  unfold parseFragmentPayload Protocol.parseFragmentPayload
  by_cases short : payload.length < fragmentHeaderSize
  · exact Or.inl ⟨⟨_, if_pos short⟩, errPacketTooSmall, if_pos short, by decide⟩
  · rw [if_neg short, if_neg (show ¬ payload.length < Protocol.fragmentHeaderSize from short)]
    have header := unpack_fragmentHeader (not_lt.mp short)
    have place : slice payload Protocol.fragmentIdSize Protocol.fragmentHeaderSize = slice payload 8 13 := rfl
    have limit : uint16 maxFragmentsPerAssembly = Protocol.maxFragmentsPerAssembly := rfl
    simp only [place, header, limit]
    by_cases none : (readBigEndian16 payload 10).toNat = 0
    · rw [if_pos none, if_pos (Or.inl none)]
      exact Or.inl ⟨⟨_, rfl⟩, errFragmentLimit, rfl, by decide⟩
    · by_cases many : Protocol.maxFragmentsPerAssembly < (readBigEndian16 payload 10).toNat
      · rw [if_neg none, if_pos (Or.inr many), if_pos many]
        refine Or.inl ⟨?_, errFragmentLimit, rfl, by decide⟩
        split <;> exact ⟨_, rfl⟩
      · rw [if_neg none, if_neg (not_or.mpr ⟨none, many⟩), if_neg many]
        by_cases beyond : (readBigEndian16 payload 10).toNat ≤ (readBigEndian16 payload 8).toNat
        · rw [if_pos (not_lt.mpr beyond), if_pos beyond]
          exact Or.inl ⟨⟨_, rfl⟩, errInvalidInput, rfl, by decide⟩
        · rw [if_neg (not_not_intro (not_le.mp beyond)), if_neg beyond]
          refine Or.inr ⟨_, rfl, rfl, not_lt.mp short, not_le.mp beyond, ?_⟩
          rw [slice, Nat.add_sub_cancel_left]
          apply List.take_of_length_le
          rw [List.length_drop]

/-- An assembly of the Python table, as the prototype keeps it. -/
def ofPython (state : Protocol.AssemblyState) : AssemblyState where
  senderId := state.senderId
  fragmentId := state.fragmentId
  total := state.total
  originalType := state.originalMessageType
  chunks := state.chunks
  totalBytes := state.totalBytes

/-- The same outcome: rejected, accepted, or accepted and complete with the same bytes. -/
def Matches (added : Added) : Reassembled → Prop
  | .error _ => added.status ≠ bitchatOk ∧ added.isComplete = false
  | .ok none => added.status = bitchatOk ∧ added.isComplete = false
  | .ok (some data) => added.status = bitchatOk ∧ added.isComplete = true ∧ added.reassembledData = data

namespace NimFragmentReassembler

section OneAssembly
variable {lim : ReassemblyLimits} {q : NimFragmentReassembler} {key : AssemblyKey}
  {state : Protocol.AssemblyState} {fields : FragmentFields}

/-- The prototype completes an assembly when Python does. -/
theorem finish_ofPython (q : NimFragmentReassembler) (key : AssemblyKey) (small : state.total ≤ 65535) :
    q.finish key (ofPython state) = if state.chunks.size = state.total ∧ state.allPresent then
      ({ status := bitchatOk, reassembledData := filled state.totalBytes state.joinChunks, isComplete := true },
        q.removeKey key)
    else ({ status := bitchatOk }, q) := by
  have each : ∀ idx ∈ List.range state.total, uint16 idx = idx := by
    intro idx listed
    have below := List.mem_range.mp listed
    exact Nat.mod_eq_of_lt (by omega)
  have all : ((List.range state.total).all fun idx => state.chunks.contains (uint16 idx)) = state.allPresent := by
    rw [Protocol.AssemblyState.allPresent, Bool.eq_iff_iff, List.all_eq_true, List.all_eq_true]
    exact forall₂_congr fun idx listed => by rw [each idx listed]
  have joined : ((List.range state.total).flatMap fun idx => (state.chunks.get? (uint16 idx)).getD []) =
      state.joinChunks := by
    rw [Protocol.AssemblyState.joinChunks]
    exact List.flatMap_congr fun idx listed => by rw [each idx listed]
  unfold finish
  simp only [ofPython, all, joined]

/-- A chunk that is new to its assembly is stored alike. -/
theorem storeChunk_fresh (small : lim.maxFragmentsPerAssembly ≤ 65535)
    (bytes : q.maxReassembledBytes = lim.maxReassembledBytes)
    (indexed : Indexed q) (held : q.assemblies.get? key = some (ofPython state)) (waiting : Waiting lim state)
    (accepted : refusal lim fields = none) (total : state.total = fields.total)
    (type : state.originalMessageType = fields.originalType) (fresh : state.chunks.get? fields.index = none) :
    Matches (q.storeChunk key (ofPython state) fields.index fields.data).1
      (collect lim state fields.index fields.data).1 ∧
    Moves key ((collect lim state fields.index fields.data).2.map ofPython) q
      (q.storeChunk key (ofPython state) fields.index fields.data).2 := by
  have missing : (ofPython state).chunks.get? fields.index = none := fresh
  have count : (ofPython state).totalBytes = state.totalBytes := rfl
  simp only [storeChunk, missing, collect, ← bytes, count]
  by_cases large : q.maxReassembledBytes < state.totalBytes + fields.data.length
  · simp only [if_pos large]
    exact ⟨⟨by decide, rfl⟩, moves_removeKey indexed key⟩
  · simp only [if_neg large]
    obtain ⟨index, _⟩ := Protocol.FragmentReassembler.refusal_eq_none.mp accepted
    have takes : Protocol.FragmentReassembler.Takes lim 0 key fields (some state) state :=
      ⟨Or.inl rfl, index, total ▸ waiting.total_le, total, type, fresh, bytes ▸ not_lt.mp large⟩
    have indices := Protocol.FragmentReassembler.withChunk_indices takes waiting
    have counted := Protocol.FragmentReassembler.withChunk_bytes takes waiting
    have fits : (state.withChunk fields.index fields.data).total ≤ 65535 := waiting.total_le.trans small
    have same : { ofPython state with
        chunks := (ofPython state).chunks.set fields.index fields.data
        totalBytes := state.totalBytes + fields.data.length } =
          ofPython (state.withChunk fields.index fields.data) := rfl
    rw [same]
    generalize state.withChunk fields.index fields.data = stored at indices counted fits ⊢
    have placed := moves_set indexed held (ofPython stored)
    rw [finish_ofPython _ key fits]
    by_cases complete : stored.chunks.size = stored.total ∧ stored.allPresent
    · simp only [if_pos complete]
      have whole : stored.joinChunks.length = stored.totalBytes := by
        rw [Protocol.FragmentReassembler.joinChunks_length indices complete.1, counted]
      exact ⟨⟨rfl, rfl, filled_whole whole⟩, placed.trans (moves_removeKey placed.indexed key)⟩
    · simp only [if_neg complete]
      exact ⟨⟨rfl, rfl⟩, placed⟩

/-- A chunk that its assembly has already is compared, and changes nothing when it is the same. -/
theorem storeChunk_repeated (q : NimFragmentReassembler) (key : AssemblyKey) {existing : Bytes}
    (small : lim.maxFragmentsPerAssembly ≤ 65535)
    (waiting : Waiting lim state)
    (present : state.chunks.get? fields.index = some existing) :
    if existing = fields.data then
      q.storeChunk key (ofPython state) fields.index fields.data = ({ status := bitchatOk }, q)
    else q.storeChunk key (ofPython state) fields.index fields.data =
      ({ status := errConflictingFragment }, q.removeKey key) := by
  have present' : (ofPython state).chunks.get? fields.index = some existing := present
  simp only [storeChunk, present']
  split
  · next same =>
    have incomplete : ¬ (state.chunks.size = state.total ∧ state.allPresent) :=
      fun complete => waiting.incomplete.ne complete.1
    rw [if_neg (not_not_intro same), finish_ofPython q key (waiting.total_le.trans small), if_neg incomplete]
  · rfl

/-- Making room keeps the list of keys, and removes the first of them from a full table. -/
theorem makeRoom_spec (indexed : Indexed q) : Indexed q.makeRoom ∧ (∀ other, q.makeRoom.assemblies.get? other =
      if q.maxActiveAssemblies ≤ q.assemblies.size ∧ q.activeKeys.head? = some other then none
      else q.assemblies.get? other) ∧
    q.makeRoom.maxActiveAssemblies = q.maxActiveAssemblies ∧
    q.makeRoom.maxFragmentsPerAssembly = q.maxFragmentsPerAssembly ∧
    q.makeRoom.maxReassembledBytes = q.maxReassembledBytes := by
  unfold makeRoom
  by_cases full : q.maxActiveAssemblies ≤ q.assemblies.size
  · rw [if_pos full]
    cases listed : q.activeKeys with
    | nil => simp [indexed]
    | cons oldest rest =>
      have moves := moves_removeKey indexed oldest
      refine ⟨moves.indexed, fun other => ?_, moves.active, moves.fragments, moves.bytes⟩
      rw [moves.entries]
      simp only [full, true_and, List.head?_cons, Option.some.injEq, eq_comm]
  · rw [if_neg full]
    simp [full, indexed]

end OneAssembly
end NimFragmentReassembler

/-- The same limits and the same assemblies. -/
structure Related (lim : ReassemblyLimits) (r : Protocol.FragmentReassembler) (q : NimFragmentReassembler) :
    Prop where
  bounded : Bounded lim r
  indexed : q.Indexed
  active : q.maxActiveAssemblies = lim.maxActiveAssemblies
  fragments : q.maxFragmentsPerAssembly = lim.maxFragmentsPerAssembly
  bytes : q.maxReassembledBytes = lim.maxReassembledBytes
  entries : ∀ key, q.assemblies.get? key = (r.assemblies.get? key).map ofPython

section Fragments
variable {lim : ReassemblyLimits} {r : Protocol.FragmentReassembler} {q : NimFragmentReassembler}
  {senderId payload : Bytes} {fields : FragmentFields} {now : Seconds}

theorem Related.contains (related : Related lim r q) (key : AssemblyKey) :
    r.assemblies.contains key = q.assemblies.contains key := by
  rw [InsertionMap.contains, InsertionMap.contains, related.entries, Option.isSome_map]

theorem Related.size (related : Related lim r q) : r.assemblies.size = q.assemblies.size :=
  InsertionMap.size_eq_of_contains related.contains

/-- What the prototype cannot read or does not accept leaves its table alone. -/
theorem addFragment_unfit (senderId : Bytes) (small : lim.maxFragmentsPerAssembly ≤ 65535)
    (related : Related lim r q)
    (unfit : (∃ status, parseFragmentPayload payload = .error status ∧ status ≠ bitchatOk) ∨
      ∃ fields, parseFragmentPayload payload = .ok (rawOf payload fields) ∧
        lim.maxFragmentsPerAssembly < fields.total) :
    ∃ status, status ≠ bitchatOk ∧ q.addFragment senderId payload = ({ status }, q) := by
  unfold NimFragmentReassembler.addFragment
  by_cases short : senderId.length ≠ senderIdSize ∨ payload.length < fragmentHeaderSize
  · exact ⟨errInvalidInput, by decide, if_pos short⟩
  · rw [if_neg short]
    rcases unfit with ⟨status, failed, bad⟩ | ⟨fields, parsed, many⟩
    · exact ⟨status, bad, by rw [failed]⟩
    · have above : uint16 q.maxFragmentsPerAssembly < fields.total := by
        rw [related.fragments, uint16, Nat.mod_eq_of_lt (by omega)]
        exact many
      rw [parsed]
      exact ⟨errFragmentLimit, by decide, if_pos above⟩

/-- The prototype treats an acceptable fragment as Python treats it, after making room where the
fragment opens an assembly. -/
theorem addFragment_assemble {key : AssemblyKey} (small : lim.maxFragmentsPerAssembly ≤ 65535)
    (related : Related lim r q) (sender : senderId.length = senderIdSize)
    (long : fragmentHeaderSize ≤ payload.length) (parsed : parseFragmentPayload payload = .ok (rawOf payload fields))
    (carried : slice payload fragmentHeaderSize (fragmentHeaderSize + (payload.length - fragmentHeaderSize)) =
      fields.data)
    (accepted : refusal lim fields = none) (own : (senderId, fields.fragmentId) = key) (now : Seconds) :
    Matches (q.addFragment senderId payload).1 (assemble lim now key fields (r.assemblies.get? key)).1 ∧
    NimFragmentReassembler.Moves key ((assemble lim now key fields (r.assemblies.get? key)).2.map ofPython)
      (if r.assemblies.get? key = none then q.makeRoom else q) (q.addFragment senderId payload).2 := by
  obtain ⟨index, total⟩ := Protocol.FragmentReassembler.refusal_eq_none.mp accepted
  have enough : ¬ uint16 q.maxFragmentsPerAssembly < fields.total := by
    rw [related.fragments, uint16, Nat.mod_eq_of_lt (by omega)]
    omega
  have entry := related.entries key
  unfold NimFragmentReassembler.addFragment
  rw [if_neg (by omega), parsed]
  simp only [rawOf, if_neg enough, carried, assemble, accepted, own, entry]
  cases held : r.assemblies.get? key with
  | some state =>
    have waiting := (related.bounded.sound key state held).toWaiting
    rw [held] at entry
    simp only [Option.map_some, reduceCtorEq, if_false]
    by_cases differs : (ofPython state).total ≠ fields.total ∨ (ofPython state).originalType ≠ fields.originalType
    · have mismatch : inconsistency state fields ≠ none := by
        intro consistent
        obtain ⟨sameTotal, sameType, _⟩ := Protocol.FragmentReassembler.inconsistency_eq_none.mp consistent
        exact differs.elim (absurd sameTotal) (absurd sameType)
      obtain ⟨e, mismatch⟩ := Option.ne_none_iff_exists'.mp mismatch
      rw [if_pos differs, mismatch]
      exact ⟨⟨(by decide : errInvalidInput ≠ bitchatOk), rfl⟩,
        NimFragmentReassembler.moves_removeKey related.indexed key⟩
    · rw [if_neg differs]
      simp only [not_or, ne_eq, not_not] at differs
      obtain ⟨sameTotal, sameType⟩ := differs
      cases present : state.chunks.get? fields.index with
      | none =>
        have consistent : inconsistency state fields = none :=
          Protocol.FragmentReassembler.inconsistency_eq_none.mpr ⟨sameTotal, sameType, by simp [present]⟩
        have absent : state.chunks.contains fields.index = false := by rw [InsertionMap.contains, present]; rfl
        simp only [consistent, absent, Bool.false_eq_true, if_false]
        exact NimFragmentReassembler.storeChunk_fresh small related.bytes related.indexed entry waiting accepted
          sameTotal sameType present
      | some existing =>
        have repeated := NimFragmentReassembler.storeChunk_repeated q key small waiting present
        by_cases same : existing = fields.data
        · rw [if_pos same] at repeated
          have consistent : inconsistency state fields = none :=
            Protocol.FragmentReassembler.inconsistency_eq_none.mpr ⟨sameTotal, sameType, by simp [present, same]⟩
          have known : state.chunks.contains fields.index = true := by rw [InsertionMap.contains, present]; rfl
          simp only [consistent, known, if_true, repeated]
          exact ⟨⟨rfl, rfl⟩, NimFragmentReassembler.moves_refl related.indexed entry⟩
        · rw [if_neg same] at repeated
          have conflict : inconsistency state fields ≠ none := by
            intro consistent
            exact same ((Protocol.FragmentReassembler.inconsistency_eq_none.mp consistent).2.2 existing present)
          obtain ⟨e, conflict⟩ := Option.ne_none_iff_exists'.mp conflict
          rw [repeated, conflict]
          exact ⟨⟨(by decide : errConflictingFragment ≠ bitchatOk), rfl⟩,
            NimFragmentReassembler.moves_removeKey related.indexed key⟩
  | none =>
    obtain ⟨indexed, entries, _, _, bytes⟩ := NimFragmentReassembler.makeRoom_spec related.indexed
    have unknown : q.makeRoom.assemblies.get? key = none := by
      rw [entries, entry, held]
      simp
    let opened := Protocol.AssemblyState.opened key fields.total fields.originalType now
    have placed := NimFragmentReassembler.moves_openAssembly indexed unknown (ofPython opened)
    have here : (q.makeRoom.openAssembly key (ofPython opened)).assemblies.get? key = some (ofPython opened) := by
      rw [placed.entries, if_pos rfl]
    obtain ⟨outcome, moved⟩ := NimFragmentReassembler.storeChunk_fresh small
      (placed.bytes.trans (bytes.trans related.bytes)) placed.indexed here
      (Protocol.FragmentReassembler.opened_waiting index total) accepted rfl rfl rfl
    have raw : (⟨senderId, fields.fragmentId, fields.total, fields.originalType, .empty, 0⟩ : AssemblyState) =
        ofPython opened := by
      change _ = ofPython (Protocol.AssemblyState.opened key fields.total fields.originalType now)
      rw [← own]
      rfl
    simp only [Option.map_none, if_true, raw]
    exact ⟨outcome, placed.trans moved⟩

end Fragments

/-- A fragment for both, from a sender with a proper id. -/
structure ReassemblyInput where
  now : Seconds
  senderId : Bytes
  payload : Bytes
  senderId_size : senderId.length = senderIdSize

/-- The two tables. -/
abbrev Pair := Protocol.FragmentReassembler × NimFragmentReassembler

def addBoth (lim : ReassemblyLimits) (input : ReassemblyInput) (s : Pair) : (Reassembled × Added) × Pair :=
  let python := s.1.addFragment lim input.now input.senderId input.payload
  let nim := s.2.addFragment input.senderId input.payload
  ((python.1, nim.1), (python.2, nim.2))

def Step (lim : ReassemblyLimits) (s : Pair) (input : ReassemblyInput) (t : Pair) : Prop :=
  (addBoth lim input s).2 = t

/-- The prototype's table, new. -/
def newNim (lim : ReassemblyLimits) : NimFragmentReassembler where
  maxActiveAssemblies := lim.maxActiveAssemblies
  maxFragmentsPerAssembly := lim.maxFragmentsPerAssembly
  maxReassembledBytes := lim.maxReassembledBytes

/-- Both accept or reject, both complete with the same bytes or do not, and both hold the same keys. -/
structure Agrees (lim : ReassemblyLimits) (s : Pair) (input : ReassemblyInput) (t : Pair) : Prop where
  accepted : (∃ done, (addBoth lim input s).1.1 = .ok done) ↔ (addBoth lim input s).1.2.status = bitchatOk
  completed : ∀ data, (addBoth lim input s).1.1 = .ok (some data) ↔
    (addBoth lim input s).1.2.isComplete = true ∧ (addBoth lim input s).1.2.reassembledData = data
  active : ∀ key, t.1.assemblies.contains key = t.2.assemblies.contains key

/-- Where the fragment opens an assembly in a full table, the one touched longest ago is the one that
was opened first. -/
def SameVictim (lim : ReassemblyLimits) (s : Pair) (input : ReassemblyInput) : Prop :=
  ∀ fields, Protocol.parseFragmentPayload input.payload = .ok fields → refusal lim fields = none →
    s.1.assemblies.get? (input.senderId, fields.fragmentId) = none →
    lim.maxActiveAssemblies ≤ s.1.assemblies.size →
    s.1.assemblies.entries.head?.map Prod.fst = s.2.activeKeys.head?

section Steps
variable {lim : ReassemblyLimits} {s t : Pair} {input : ReassemblyInput}

theorem Matches.agrees {added : Added} {result : Reassembled} (same : Matches added result) :
    ((∃ done, result = .ok done) ↔ added.status = bitchatOk) ∧
    ∀ data, result = .ok (some data) ↔ added.isComplete = true ∧ added.reassembledData = data := by
  cases result with
  | error e => simp [same.1, same.2]
  | ok done =>
    cases done with
    | none => simp [same.1, same.2]
    | some joined => simp [same.1, same.2.1, same.2.2, eq_comm]

/-- The fragment opens an assembly in a full table. -/
def Displaces (lim : ReassemblyLimits) (s : Pair) (key : AssemblyKey) : Prop :=
  s.1.assemblies.get? key = none ∧ lim.maxActiveAssemblies ≤ s.1.assemblies.size

instance {key : AssemblyKey} : Decidable (Displaces lim s key) := inferInstanceAs (Decidable (_ ∧ _))

/-- Both refuse the input and keep their tables. -/
structure BothRefuse (lim : ReassemblyLimits) (s : Pair) (input : ReassemblyInput) : Prop where
  raised : ∃ e, (addBoth lim input s).1.1 = .error e
  status : (addBoth lim input s).1.2.status ≠ bitchatOk ∧ (addBoth lim input s).1.2.isComplete = false
  kept : (addBoth lim input s).2 = s
  unfit : ∀ fields, Protocol.parseFragmentPayload input.payload = .ok fields → refusal lim fields ≠ none

/-- Both take the fragment for its key; a full table loses its victim first. -/
structure BothTake (lim : ReassemblyLimits) (s : Pair) (input : ReassemblyInput) (key : AssemblyKey) : Prop where
  outcome : Matches (addBoth lim input s).1.2 (addBoth lim input s).1.1
  own : (addBoth lim input s).2.2.assemblies.get? key =
    ((addBoth lim input s).2.1.assemblies.get? key).map ofPython
  python : ∀ other, other ≠ key → (addBoth lim input s).2.1.assemblies.get? other =
    if Displaces lim s key ∧ s.1.assemblies.entries.head?.map Prod.fst = some other then none
    else s.1.assemblies.get? other
  nim : ∀ other, other ≠ key → (addBoth lim input s).2.2.assemblies.get? other =
    if Displaces lim s key ∧ s.2.activeKeys.head? = some other then none else s.2.assemblies.get? other
  indexed : (addBoth lim input s).2.2.Indexed
  active : (addBoth lim input s).2.2.maxActiveAssemblies = s.2.maxActiveAssemblies
  fragments : (addBoth lim input s).2.2.maxFragmentsPerAssembly = s.2.maxFragmentsPerAssembly
  bytes : (addBoth lim input s).2.2.maxReassembledBytes = s.2.maxReassembledBytes

/-- Every input is refused or taken by both. -/
theorem addBoth_cases (small : lim.maxFragmentsPerAssembly ≤ 65535) (related : Related lim s.1 s.2)
    (input : ReassemblyInput) : BothRefuse lim s input ∨
    ∃ fields, Protocol.parseFragmentPayload input.payload = .ok fields ∧ refusal lim fields = none ∧
      BothTake lim s input (input.senderId, fields.fragmentId) := by
  rcases parse_agrees input.payload with
    ⟨⟨e, raised⟩, status, failed, bad⟩ | ⟨fields, read, parsed, long, index, carried⟩
  · have python : s.1.addFragment lim input.now input.senderId input.payload = (.error e, s.1) := by
      simp only [Protocol.FragmentReassembler.addFragment, raised]
    obtain ⟨status, bad, nim⟩ := addFragment_unfit input.senderId small related (Or.inl ⟨status, failed, bad⟩)
    have both : addBoth lim input s = ((.error e, { status }), s) := by simp only [addBoth, python, nim]
    exact Or.inl ⟨⟨e, by rw [both]⟩, by rw [both]; exact ⟨bad, rfl⟩, by rw [both], by simp [raised]⟩
  · have python : s.1.addFragment lim input.now input.senderId input.payload =
        s.1.insertChunk lim input.now input.senderId fields := by
      simp only [Protocol.FragmentReassembler.addFragment, read]
    cases refused : refusal lim fields with
    | some e =>
      have many : lim.maxFragmentsPerAssembly < fields.total := by
        by_contra few
        have fit := Protocol.FragmentReassembler.refusal_eq_none.mpr ⟨index, not_lt.mp few⟩
        rw [refused] at fit
        cases fit
      have kept : s.1.insertChunk lim input.now input.senderId fields = (.error e, s.1) := by
        simp only [Protocol.FragmentReassembler.insertChunk, refused]
      obtain ⟨status, bad, nim⟩ :=
        addFragment_unfit input.senderId small related (Or.inr ⟨fields, parsed, many⟩)
      have both : addBoth lim input s = ((.error e, { status }), s) := by simp only [addBoth, python, kept, nim]
      refine Or.inl ⟨⟨e, by rw [both]⟩, by rw [both]; exact ⟨bad, rfl⟩, by rw [both], fun other same => ?_⟩
      obtain rfl : fields = other := Except.ok.inj (read.symm.trans same)
      simp [refused]
    | none =>
      refine Or.inr ⟨fields, read, refused, ?_⟩
      obtain ⟨outcome, moves⟩ := addFragment_assemble small related input.senderId_size long parsed carried
        refused rfl input.now
      obtain ⟨result, entry⟩ :=
        Protocol.FragmentReassembler.insertChunk_view lim s.1 input.now input.senderId fields
      rw [← result, ← python] at outcome
      rw [← entry, ← python] at moves
      cases held : s.1.assemblies.get? (input.senderId, fields.fragmentId) with
      | some state =>
        have stays : ¬ Displaces lim s (input.senderId, fields.fragmentId) := by simp [Displaces, held]
        simp only [held, reduceCtorEq, if_false] at moves
        refine ⟨outcome, by rw [addBoth, moves.entries, if_pos rfl], fun other different => ?_,
          fun other different => ?_, moves.indexed, moves.active, moves.fragments, moves.bytes⟩
        · simp only [addBoth, python, stays, false_and, if_false]
          exact Protocol.FragmentReassembler.insertChunk_held input.now input.senderId fields held different
        · simp only [addBoth, moves.entries, if_neg different, stays, false_and, if_false]
      | none =>
        obtain ⟨_, entries, active, fragments, bytes⟩ := NimFragmentReassembler.makeRoom_spec related.indexed
        simp only [held, if_true] at moves
        refine ⟨outcome, by rw [addBoth, moves.entries, if_pos rfl], fun other different => ?_,
          fun other different => ?_, moves.indexed, moves.active.trans active, moves.fragments.trans fragments,
          moves.bytes.trans bytes⟩
        · have opened := Protocol.FragmentReassembler.insertChunk_opens input.now input.senderId fields refused
            held different
          simp only [addBoth, python, opened, Displaces, held, true_and]
          by_cases full : lim.maxActiveAssemblies ≤ s.1.assemblies.size
          · simp only [full, if_true, true_and, InsertionMap.get?_popFirst_eq]
          · simp only [full, if_false, false_and]
        · simp only [addBoth, moves.entries, if_neg different, entries, Displaces, held, true_and,
            related.active, related.size]

theorem addBoth_matches (small : lim.maxFragmentsPerAssembly ≤ 65535) (related : Related lim s.1 s.2)
    (input : ReassemblyInput) : Matches (addBoth lim input s).1.2 (addBoth lim input s).1.1 := by
  rcases addBoth_cases small related input with refused | ⟨fields, _, _, taken⟩
  · obtain ⟨e, raised⟩ := refused.raised
    rw [raised]
    exact refused.status
  · exact taken.outcome

theorem addBoth_bounded (bounded : Bounded lim s.1) (input : ReassemblyInput) :
    Bounded lim (addBoth lim input s).2.1 :=
  let call : Protocol.FragmentReassembler.Call := .addFragment input.now input.senderId input.payload
  show Bounded lim (s.1.perform lim call).2 from Protocol.FragmentReassembler.perform_bounded bounded

/-- The tables stay related where the same assembly makes room in both. -/
theorem Related.step (small : lim.maxFragmentsPerAssembly ≤ 65535) (related : Related lim s.1 s.2)
    (same : SameVictim lim s input) : Related lim (addBoth lim input s).2.1 (addBoth lim input s).2.2 := by
  rcases addBoth_cases small related input with refused | ⟨fields, read, accepted, taken⟩
  · rw [refused.kept]
    exact related
  · refine ⟨addBoth_bounded related.bounded input, taken.indexed, taken.active.trans related.active,
      taken.fragments.trans related.fragments, taken.bytes.trans related.bytes, fun other => ?_⟩
    by_cases own : other = (input.senderId, fields.fragmentId)
    · rw [own]
      exact taken.own
    · rw [taken.python other own, taken.nim other own]
      by_cases displaces : Displaces lim s (input.senderId, fields.fragmentId)
      · have victim := same fields read accepted displaces.1 displaces.2
        rw [victim, related.entries]
        split <;> rfl
      · simp only [displaces, false_and, if_false, related.entries]

/-- Where another assembly makes room in each, the tables hold other keys afterwards. -/
theorem sameVictim_of_active (small : lim.maxFragmentsPerAssembly ≤ 65535) (related : Related lim s.1 s.2)
    (active : ∀ key, (addBoth lim input s).2.1.assemblies.contains key =
      (addBoth lim input s).2.2.assemblies.contains key) : SameVictim lim s input := by
  intro fields read accepted unknown full
  rcases addBoth_cases small related input with refused | ⟨fields', read', _, taken⟩
  · exact absurd accepted (refused.unfit fields read)
  · obtain rfl : fields = fields' := Except.ok.inj (read.symm.trans read')
    obtain ⟨first, listed⟩ := Protocol.FragmentReassembler.exists_first full
    have held := (InsertionMap.popFirst_head listed).1
    have other : first.1 ≠ (input.senderId, fields.fragmentId) := by
      rintro same
      rw [same, unknown] at held
      cases held
    have displaces : Displaces lim s (input.senderId, fields.fragmentId) := ⟨unknown, full⟩
    have gone := active first.1
    rw [InsertionMap.contains, InsertionMap.contains, taken.python _ other, taken.nim _ other, listed] at gone
    by_contra differ
    rw [listed, Option.map_some] at differ
    rw [if_pos ⟨displaces, rfl⟩, if_neg fun here => differ here.2.symm, related.entries, held] at gone
    cases gone

theorem agrees_iff (small : lim.maxFragmentsPerAssembly ≤ 65535) (related : Related lim s.1 s.2)
    (stepped : Step lim s input t) : Agrees lim s input t ↔ SameVictim lim s input := by
  subst stepped
  constructor
  · exact fun agrees => sameVictim_of_active small related agrees.active
  · intro same
    obtain ⟨accepted, completed⟩ := (addBoth_matches small related input).agrees
    exact ⟨accepted, completed, (related.step small same).contains⟩

end Steps

theorem newNim_related (lim : ReassemblyLimits) :
    Related lim Protocol.FragmentReassembler.new (newNim lim) where
  bounded := ⟨Nat.zero_le _, by simp [Protocol.FragmentReassembler.new]⟩
  indexed := ⟨List.nodup_nil, by simp [newNim]⟩
  active := rfl
  fragments := rfl
  bytes := rfl
  entries := by simp [newNim, Protocol.FragmentReassembler.new]

/-- The reassemblers agree at every step of a run exactly when, at each step, the assembly touched
longest ago and the one opened first are the same where one of them has to make room. -/
theorem reassemblers_agree {lim : ReassemblyLimits} {history : List (Taken Pair ReassemblyInput)} {s : Pair}
    (run : Run (Step lim) (Protocol.FragmentReassembler.new, newNim lim) history s)
    (small : lim.maxFragmentsPerAssembly ≤ 65535) :
    (∀ e ∈ history, Agrees lim e.before e.label e.after) ↔ ∀ e ∈ history, SameVictim lim e.before e.label := by
  apply run.meets_iff (P := fun s => Related lim s.1 s.2) (newNim_related lim)
  · exact fun related stepped => agrees_iff small related stepped
  · rintro s input t related same rfl
    exact related.step small same

section Victims

/-- Two assemblies at a time. -/
def twoSlots : ReassemblyLimits :=
  { ReassemblyLimits.standard with maxActiveAssemblies := 2, maxActiveAssemblies_pos := Nat.two_pos }

theorem replicate_senderId (byte : UInt8) : (List.replicate 8 byte).length = senderIdSize :=
  List.length_replicate

/-- One of three fragments of a message, from the device whose id repeats a byte. -/
def oneOfThree (sender index : UInt8) : ReassemblyInput where
  now := 0
  senderId := List.replicate 8 sender
  payload := List.replicate 8 0 ++ [0, index, 0, 3, 4] ++ [sender]
  senderId_size := replicate_senderId sender

def reached (inputs : List ReassemblyInput) : Pair :=
  inputs.foldl (fun s input => (addBoth twoSlots input s).2) (Protocol.FragmentReassembler.new, newNim twoSlots)

theorem reached_run (inputs : List ReassemblyInput) : Run (Step twoSlots)
    (Protocol.FragmentReassembler.new, newNim twoSlots)
    (Run.trace (fun input s => (addBoth twoSlots input s).2) (Protocol.FragmentReassembler.new, newNim twoSlots)
      inputs) (reached inputs) :=
  Run.of_trace (fun input s => (addBoth twoSlots input s).2) fun _ _ _ => rfl

/-- A fragment of the older assembly saves it in Python and not in the prototype. -/
theorem touched_assembly_differs : ¬ ∀ (lim : ReassemblyLimits) (history : List (Taken Pair ReassemblyInput))
    (s : Pair), Run (Step lim) (Protocol.FragmentReassembler.new, newNim lim) history s →
    lim.maxFragmentsPerAssembly ≤ 65535 → ∀ e ∈ history, Agrees lim e.before e.label e.after := by
  intro agreeing
  let full := reached [oneOfThree 1 0, oneOfThree 2 0, oneOfThree 1 1]
  have last : Step twoSlots full (oneOfThree 3 0) (addBoth twoSlots (oneOfThree 3 0) full).2 := rfl
  have agrees := agreeing twoSlots _ _ ((reached_run _).snoc last) (by decide) _
    (List.mem_append_right _ List.mem_cons_self)
  exact absurd (agrees.active (List.replicate 8 2, List.replicate 8 0)) (by decide +kernel)

/-- Untouched assemblies leave in the same order. -/
theorem untouched_assemblies_agree :
    (reached [oneOfThree 1 0, oneOfThree 2 0, oneOfThree 3 0]).1.assemblies.contains
      (List.replicate 8 1, List.replicate 8 0) = false ∧
    ∀ e ∈ Run.trace (fun input s => (addBoth twoSlots input s).2)
      (Protocol.FragmentReassembler.new, newNim twoSlots) [oneOfThree 1 0, oneOfThree 2 0, oneOfThree 3 0],
      Agrees twoSlots e.before e.label e.after := by
  refine ⟨by decide +kernel, (reassemblers_agree (reached_run _) (by decide)).mpr ?_⟩
  simp only [Run.trace, List.forall_mem_cons, List.not_mem_nil, false_implies, implies_true, and_true]
  refine ⟨fun _ _ _ _ full => absurd full (by decide +kernel), fun _ _ _ _ full => absurd full (by decide +kernel),
    fun _ _ _ _ _ => by decide +kernel⟩

end Victims

end Bitchat.Nim
