import Bitchat.Protocol.ReassemblyView

/-! What a rejected fragment does to the assemblies of other keys. All checks but that of the size
come before the table is touched; an oversized first fragment has already taken another's place. -/
namespace Bitchat.Protocol.FragmentReassembler

/-- The assemblies of all keys but the call's own stay as they are. -/
def SparesAssemblies (r : FragmentReassembler) (call : Call) (t : FragmentReassembler) : Prop :=
  ∀ other, call.key ≠ some other → t.assemblies.get? other = r.assemblies.get? other

/-- The call's fragment would open an assembly in a full table, and alone exceeds the size limit. -/
def OverflowsFull (lim : ReassemblyLimits) (r : FragmentReassembler) (call : Call) : Prop :=
  ∃ senderId fields, call.fragment = some (senderId, fields) ∧ refusal lim fields = none ∧
    r.assemblies.get? (senderId, fields.fragmentId) = none ∧
    lim.maxActiveAssemblies ≤ r.assemblies.size ∧ lim.maxReassembledBytes < fields.data.length

section Insertions
variable {lim : ReassemblyLimits} {r t : FragmentReassembler} {now : Seconds} {senderId : Bytes}
  {fields : FragmentFields} {e : ProtocolError}

/-- The first fragment of an assembly is rejected for its size alone. -/
theorem insertChunk_large (accepted : refusal lim fields = none)
    (unknown : r.assemblies.get? (senderId, fields.fragmentId) = none)
    (raised : r.insertChunk lim now senderId fields = (.error e, t)) :
    lim.maxReassembledBytes < fields.data.length := by
  have result := (insertChunk_view lim r now senderId fields).1
  simp only [raised, assemble, accepted, unknown, collect] at result
  split at result
  · next large => simpa [AssemblyState.opened] using large
  · split at result
    · cases result
    · cases result

/-- A rejected fragment spares the other assemblies exactly when it does not open one in a full table. -/
theorem insertChunk_spares (raised : r.insertChunk lim now senderId fields = (.error e, t)) :
    (∀ other, other ≠ (senderId, fields.fragmentId) →
      t.assemblies.get? other = r.assemblies.get? other) ↔
    ¬ (refusal lim fields = none ∧ r.assemblies.get? (senderId, fields.fragmentId) = none ∧
      lim.maxActiveAssemblies ≤ r.assemblies.size ∧ lim.maxReassembledBytes < fields.data.length) := by
  have left : t = (r.insertChunk lim now senderId fields).2 := by rw [raised]
  cases refused : refusal lim fields with
  | some reason =>
    have same : t = r := by
      rw [left]
      simp only [insertChunk, refused]
    simp [same]
  | none =>
    cases held : r.assemblies.get? (senderId, fields.fragmentId) with
    | some state =>
      refine iff_of_true (fun other different => ?_) (by simp)
      rw [left]
      exact insertChunk_held now senderId fields held different
    | none =>
      have large := insertChunk_large refused held raised
      have others := fun (other : AssemblyKey) (different : other ≠ (senderId, fields.fragmentId)) =>
        insertChunk_opens now senderId fields refused held different
      rw [← left] at others
      by_cases full : lim.maxActiveAssemblies ≤ r.assemblies.size
      · refine iff_of_false (fun spared => ?_) (by simp [full, large])
        -- the entry that made room belongs to another key
        obtain ⟨first, listed⟩ := exists_first full
        obtain ⟨found, gone⟩ := InsertionMap.popFirst_head listed
        have different : first.1 ≠ (senderId, fields.fragmentId) := by
          rintro same
          rw [same, held] at found
          cases found
        have kept := spared first.1 different
        rw [others first.1 different, if_pos full, gone, found] at kept
        cases kept
      · refine iff_of_true (fun other different => ?_) (by simp [full])
        rw [others other different, if_neg full]

/-- A rejected call spares the other assemblies exactly when it does not open one in a full table
only to find its fragment too large. -/
theorem rejected_spares {call : Call} (raised : r.perform lim call = (.error e, t)) :
    SparesAssemblies r call t ↔ ¬ OverflowsFull lim r call := by
  cases carries : call.fragment with
  | some carried =>
    obtain ⟨senderId, fields⟩ := carried
    rw [perform_fragment carries] at raised
    simp only [SparesAssemblies, OverflowsFull, Call.key, carries, Option.map_some, ne_eq, Option.some.injEq,
      Prod.mk.injEq, ↓existsAndEq, and_true, true_and]
    rw [← insertChunk_spares raised]
    constructor
    · exact fun spared other different => spared other (Ne.symm different)
    · exact fun spared other different => spared other (Ne.symm different)
  | none =>
    have same : t = r := by
      cases call with
      | pruneStale now maxAge => cases (Prod.mk.inj raised).1
      | clear => cases (Prod.mk.inj raised).1
      | addFragment | addFragmentPacket =>
        have kept := (perform_unreadable lim r carries (by simp) (by simp)).2
        rw [raised] at kept
        exact kept
    subst same
    simp [SparesAssemblies, OverflowsFull, carries]

end Insertions

section Overflow

/-- One assembly at a time, of one byte. -/
def singleByte : ReassemblyLimits :=
  { ReassemblyLimits.standard with
    maxActiveAssemblies := 1
    maxReassembledBytes := 1
    maxActiveAssemblies_pos := Nat.one_pos
    maxReassembledBytes_pos := Nat.one_pos }

/-- The first of two fragments of a message, with some data. -/
def firstOfTwo (fragmentId data : Bytes) : Bytes := fragmentId ++ [0, 0, 0, 2, 2] ++ data

/-- The opening of an assembly. -/
def opening : Call := .addFragment 0 (List.replicate 8 1) (firstOfTwo (List.replicate 8 0) [5])

/-- A table that holds one assembly. -/
def occupied : FragmentReassembler := (new.perform singleByte opening).2

theorem opening_occupies : new.perform singleByte opening = (.ok none, occupied) := by decide +kernel

/-- A fragment too large for the table costs another sender its assembly. -/
theorem oversized_fragment_evicts : ¬ ∀ (lim : ReassemblyLimits) (r t : FragmentReassembler) (call : Call)
    (e : ProtocolError), (∃ history, Run (Step lim) new history r) → r.perform lim call = (.error e, t) →
    SparesAssemblies r call t := by
  intro sparing
  have reached : ∃ history, Run (Step singleByte) new history occupied :=
    ⟨_, Run.nil.snoc (show Step singleByte new (opening, .ok none) occupied from opening_occupies)⟩
  let oversized : Call := .addFragment 1 (List.replicate 8 2) (firstOfTwo (List.replicate 8 0) [5, 6])
  have spared := sparing singleByte occupied (occupied.perform singleByte oversized).2 oversized
    (.fragmentLimitExceeded "Reassembled size exceeds limit 1") reached (by decide +kernel)
  exact absurd (spared (List.replicate 8 1, List.replicate 8 0) (by decide +kernel)) (by decide +kernel)

/-- A fragment cut short harms nobody. -/
theorem short_fragment_spares :
    SparesAssemblies occupied (.addFragment 1 (List.replicate 8 2) []) occupied := by
  have raised : occupied.perform singleByte (.addFragment 1 (List.replicate 8 2) []) =
      (.error (.fragmentPayload "Fragment payload too short: 0 bytes, need at least 13"), occupied) := by
    decide +kernel
  refine (rejected_spares raised).mpr ?_
  rintro ⟨_, _, carried, _⟩
  cases carried

end Overflow

end Bitchat.Protocol.FragmentReassembler
