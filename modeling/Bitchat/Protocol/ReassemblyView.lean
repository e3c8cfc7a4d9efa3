import Bitchat.Protocol.Reassembly

/-! One assembly seen alone. What a call returns for a key and what it leaves
under that key depends on the table only through the entry of the key; the rest of
the table matters only to which entry a full table evicts. -/
namespace Bitchat.Protocol.FragmentReassembler
open AssemblyState

/-- The assembly after one more chunk, `none` once it is dropped or complete. -/
def collect (lim : ReassemblyLimits) (state : AssemblyState) (index : Nat) (chunkData : Bytes) :
    Reassembled × Option AssemblyState :=
  if lim.maxReassembledBytes < state.totalBytes + chunkData.length then
    (.error (.fragmentLimitExceeded
      s!"Reassembled size exceeds limit {lim.maxReassembledBytes}"), none)
  else
    let stored := state.withChunk index chunkData
    if stored.chunks.size = stored.total ∧ stored.allPresent then
      (.ok (some stored.joinChunks), none)
    else (.ok none, some stored)

/-- What becomes of the assembly of `key`, held or not, when a fragment of it arrives. -/
def assemble (lim : ReassemblyLimits) (now : Seconds) (key : AssemblyKey)
    (fields : FragmentFields) (held : Option AssemblyState) : Reassembled × Option AssemblyState :=
  match refusal lim fields with
  | some e => (.error e, held)
  | none =>
    match held with
    | some state =>
      match inconsistency state fields with
      | some e => (.error e, none)
      | none =>
        if state.chunks.contains fields.index then (.ok none, some state)
        else collect lim state fields.index fields.data
    | none =>
      collect lim (AssemblyState.opened key fields.total fields.originalType now) fields.index
        fields.data

/-- The sender and the parsed fragment of a call, `none` when it carries none. -/
def Call.fragment : Call → Option (Bytes × FragmentFields)
  | .addFragment _ senderId payload =>
    match parseFragmentPayload payload with
    | .ok fields => some (senderId, fields)
    | .error _ => none
  | .addFragmentPacket _ packet =>
    match readFragmentPacket packet with
    | .ok fields => some (packet.senderId, fields)
    | .error _ => none
  | _ => none

def Call.key (call : Call) : Option AssemblyKey :=
  call.fragment.map fun f => (f.1, f.2.fragmentId)

def Call.now : Call → Seconds
  | .addFragment now .. | .addFragmentPacket now _ | .pruneStale now _ => now
  | .clear => 0

/-- What becomes of the assembly of `key` at any call. -/
def view (lim : ReassemblyLimits) (key : AssemblyKey) (call : Call) (held : Option AssemblyState) :
    Reassembled × Option AssemblyState :=
  match call with
  | .pruneStale now maxAge => (.ok none, held.filter fun state => !(maxAge < now - state.createdAt))
  | .clear => (.ok none, none)
  | call =>
    match call.fragment with
    | some (senderId, fields) =>
      if (senderId, fields.fragmentId) = key then assemble lim call.now key fields held
      else (.ok none, held)
    | none => (.ok none, held)

section Table
variable {lim : ReassemblyLimits} {r : FragmentReassembler} {key other : AssemblyKey}

theorem storeChunk_view (lim : ReassemblyLimits) (r : FragmentReassembler)
    (key other : AssemblyKey) (state : AssemblyState) (index : Nat) (chunkData : Bytes) :
    (r.storeChunk lim key state index chunkData).1 = (collect lim state index chunkData).1 ∧
    (r.storeChunk lim key state index chunkData).2.assemblies.get? other =
      if other = key then (collect lim state index chunkData).2 else r.assemblies.get? other := by
  unfold storeChunk collect
  split
  · simp [drop]
  · by_cases complete : (state.withChunk index chunkData).chunks.size =
        (state.withChunk index chunkData).total ∧ (state.withChunk index chunkData).allPresent
    · simp only [complete, and_self, if_true, drop, InsertionMap.get?_erase]
    · simp only [complete, if_false, InsertionMap.get?_set, true_and]

/-- The entry of the fragment's own key, and the result, come from that entry alone. -/
theorem insertChunk_view (lim : ReassemblyLimits) (r : FragmentReassembler) (now : Seconds)
    (senderId : Bytes) (fields : FragmentFields) :
    (r.insertChunk lim now senderId fields).1 =
      (assemble lim now (senderId, fields.fragmentId) fields
        (r.assemblies.get? (senderId, fields.fragmentId))).1 ∧
    (r.insertChunk lim now senderId fields).2.assemblies.get? (senderId, fields.fragmentId) =
      (assemble lim now (senderId, fields.fragmentId) fields
        (r.assemblies.get? (senderId, fields.fragmentId))).2 := by
  simp only [insertChunk, assemble]
  cases refusal lim fields with
  | some e => exact ⟨rfl, rfl⟩
  | none =>
    cases held : r.assemblies.get? (senderId, fields.fragmentId) with
    | none =>
      let state := opened (senderId, fields.fragmentId) fields.total fields.originalType now
      have stored := storeChunk_view lim (r.makeRoom lim (senderId, fields.fragmentId) state)
        (senderId, fields.fragmentId) (senderId, fields.fragmentId) state fields.index fields.data
      simpa only [if_true] using stored
    | some state =>
      simp only
      cases inconsistency state fields with
      | some e => simp [drop]
      | none =>
        by_cases present : state.chunks.contains fields.index = true
        · simp [present, held]
        · have stored := storeChunk_view lim
            ⟨r.assemblies.moveToEnd (senderId, fields.fragmentId)⟩ (senderId, fields.fragmentId)
            (senderId, fields.fragmentId) state fields.index fields.data
          simpa [present] using stored

/-- A full table has a first entry. -/
theorem exists_first (full : lim.maxActiveAssemblies ≤ r.assemblies.size) :
    ∃ first, r.assemblies.entries.head? = some first := by
  have positive := lim.maxActiveAssemblies_pos.trans full
  cases listed : r.assemblies.entries with
  | nil =>
    rw [InsertionMap.size, listed, List.length_nil] at positive
    omega
  | cons first rest => exact ⟨first, rfl⟩

/-- The first fragment of an assembly changes no other entry, once room is made for it. -/
theorem insertChunk_opens (now : Seconds) (senderId : Bytes) (fields : FragmentFields)
    (accepted : refusal lim fields = none) (unknown : r.assemblies.get? (senderId, fields.fragmentId) = none)
    (different : other ≠ (senderId, fields.fragmentId)) :
    (r.insertChunk lim now senderId fields).2.assemblies.get? other =
      (if lim.maxActiveAssemblies ≤ r.assemblies.size then r.assemblies.popFirst
        else r.assemblies).get? other := by
  simp only [insertChunk, accepted, unknown, (storeChunk_view _ _ _ _ _ _ _).2, different, if_false, makeRoom,
    InsertionMap.get?_set]

/-- A fragment of an assembly that is held changes no other entry. -/
theorem insertChunk_held {state : AssemblyState} (now : Seconds) (senderId : Bytes) (fields : FragmentFields)
    (held : r.assemblies.get? (senderId, fields.fragmentId) = some state)
    (different : other ≠ (senderId, fields.fragmentId)) :
    (r.insertChunk lim now senderId fields).2.assemblies.get? other = r.assemblies.get? other := by
  simp only [insertChunk, held]
  cases refusal lim fields with
  | some e => rfl
  | none =>
    cases inconsistency state fields with
    | some e => simp [drop, different]
    | none =>
      by_cases present : state.chunks.contains fields.index = true
      · simp [present]
      · simp [present, (storeChunk_view _ _ _ _ _ _ _).2, different]

/-- Entries of other keys stay unless a full table evicts them. -/
theorem insertChunk_other (now : Seconds) (senderId : Bytes) (fields : FragmentFields)
    (different : other ≠ (senderId, fields.fragmentId)) :
    (r.insertChunk lim now senderId fields).2.assemblies.get? other = r.assemblies.get? other ∨
    ((r.insertChunk lim now senderId fields).2.assemblies.get? other = none ∧
      lim.maxActiveAssemblies ≤ r.assemblies.size) := by
  cases refused : refusal lim fields with
  | some e => exact Or.inl (by simp only [insertChunk, refused])
  | none =>
    cases held : r.assemblies.get? (senderId, fields.fragmentId) with
    | some state => exact Or.inl (insertChunk_held now senderId fields held different)
    | none =>
      rw [insertChunk_opens now senderId fields refused held different]
      split
      · next full =>
        rcases InsertionMap.get?_popFirst (m := r.assemblies) (k := other) with same | ⟨gone, _⟩
        · exact Or.inl same
        · exact Or.inr ⟨gone, full⟩
      · exact Or.inl rfl

theorem perform_fragment {call : Call} {senderId : Bytes} {fields : FragmentFields}
    (carries : call.fragment = some (senderId, fields)) :
    r.perform lim call = r.insertChunk lim call.now senderId fields := by
  cases call with
  | addFragment now sender payload =>
    simp only [Call.fragment] at carries
    cases parsed : parseFragmentPayload payload with
    | error e => simp [parsed] at carries
    | ok found =>
      simp only [parsed, Option.some.injEq, Prod.mk.injEq] at carries
      obtain ⟨rfl, rfl⟩ := carries
      simp [perform, addFragment, parsed, Call.now]
  | addFragmentPacket now packet =>
    simp only [Call.fragment] at carries
    cases read : readFragmentPacket packet with
    | error e => simp [read] at carries
    | ok found =>
      simp only [read, Option.some.injEq, Prod.mk.injEq] at carries
      obtain ⟨rfl, rfl⟩ := carries
      simp [perform, addFragmentPacket, read, Call.now]
  | pruneStale now maxAge => simp [Call.fragment] at carries
  | clear => simp [Call.fragment] at carries

/-- A call whose fragment cannot be read raises and leaves the table alone. -/
theorem perform_unreadable (lim : ReassemblyLimits) (r : FragmentReassembler) {call : Call}
    (carries : call.fragment = none)
    (adds : ∀ now maxAge, call ≠ .pruneStale now maxAge) (keeps : call ≠ .clear) :
    (∃ e, (r.perform lim call).1 = .error e) ∧ (r.perform lim call).2 = r := by
  cases call with
  | addFragment now sender payload =>
    simp only [Call.fragment] at carries
    cases parsed : parseFragmentPayload payload with
    | error e => exact ⟨⟨e, by simp [perform, addFragment, parsed]⟩,
        by simp [perform, addFragment, parsed]⟩
    | ok found => simp [parsed] at carries
  | addFragmentPacket now packet =>
    simp only [Call.fragment] at carries
    cases read : readFragmentPacket packet with
    | error e => exact ⟨⟨e, by simp [perform, addFragmentPacket, read]⟩,
        by simp [perform, addFragmentPacket, read]⟩
    | ok found => simp [read] at carries
  | pruneStale now maxAge => exact absurd rfl (adds now maxAge)
  | clear => exact absurd rfl keeps

/-- The result for the key a call's fragment belongs to. -/
theorem perform_result (lim : ReassemblyLimits) (r : FragmentReassembler) {call : Call}
    (own : call.key = some key) :
    (r.perform lim call).1 = (view lim key call (r.assemblies.get? key)).1 := by
  obtain ⟨⟨senderId, fields⟩, carries, rfl⟩ := Option.map_eq_some_iff.mp own
  rw [perform_fragment carries, (insertChunk_view _ _ _ _ _).1]
  cases call <;> simp_all [view, Call.fragment]

/-- The entry of any key after any call; only a full table can lose it otherwise. -/
theorem perform_entry (lim : ReassemblyLimits) (r : FragmentReassembler) (key : AssemblyKey)
    (call : Call) :
    (r.perform lim call).2.assemblies.get? key = (view lim key call (r.assemblies.get? key)).2 ∨
    ((r.perform lim call).2.assemblies.get? key = none ∧
      lim.maxActiveAssemblies ≤ r.assemblies.size) := by
  cases carries : call.fragment with
  | some found =>
    obtain ⟨senderId, fields⟩ := found
    rw [perform_fragment carries]
    have seen : view lim key call (r.assemblies.get? key) =
        if (senderId, fields.fragmentId) = key
        then assemble lim call.now key fields (r.assemblies.get? key)
        else (.ok none, r.assemblies.get? key) := by
      cases call <;> simp_all [view, Call.fragment]
    rw [seen]
    by_cases own : (senderId, fields.fragmentId) = key
    · subst own
      exact Or.inl (by simpa using (insertChunk_view lim r call.now senderId fields).2)
    · rw [if_neg own]
      exact insertChunk_other call.now senderId fields (Ne.symm own)
  | none =>
    refine Or.inl ?_
    cases call with
    | pruneStale now maxAge => simp [perform, pruneStale, InsertionMap.get?_filter, view]
    | clear => simp [perform, clear, new, view]
    | addFragment | addFragmentPacket =>
      rw [(perform_unreadable lim r carries (by simp) (by simp)).2]
      simp [view, carries]

theorem perform_view (key : AssemblyKey) (call : Call) (room : r.assemblies.size < lim.maxActiveAssemblies) :
    (r.perform lim call).2.assemblies.get? key = (view lim key call (r.assemblies.get? key)).2 :=
  (perform_entry lim r key call).resolve_right fun full => by omega

end Table

end Bitchat.Protocol.FragmentReassembler
