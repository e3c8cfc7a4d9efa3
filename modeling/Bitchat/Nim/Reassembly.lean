import Bitchat.Nim.Packet
import Bitchat.Protocol.ReassemblySoundness

/-! The fragment reassembler of the Nim prototype. Its table has no order; the keys are listed beside
it in the order in which their assemblies were opened. -/
namespace Bitchat.Nim
open Bytes
open Protocol (AssemblyKey)

def fragmentHeaderSize : Nat := 13
def fragmentIdSize : Nat := 8
def maxFragmentsPerAssembly : Nat := 1000

def errInvalidInput : Int := -2
def errFragmentLimit : Int := -7
def errConflictingFragment : Int := -8

/-- The conversion `uint16(n)`. -/
def uint16 (n : Nat) : Nat := n % 65536

/-- What `parseFragmentPayload` assigns. -/
structure RawFragment where
  fragmentId : Bytes
  index : Nat
  total : Nat
  originalType : Nat
  dataOffset : Nat
  dataLen : Nat

/-- The fragment, or the status other than `BitchatOk`. -/
def parseFragmentPayload (payload : Bytes) : Except Int RawFragment :=
  if payload.length < fragmentHeaderSize then .error errPacketTooSmall
  else
    let index := (readBigEndian16 payload 8).toNat
    let total := (readBigEndian16 payload 10).toNat
    if total = 0 ∨ uint16 maxFragmentsPerAssembly < total then .error errFragmentLimit
    else if total ≤ index then .error errInvalidInput
    else .ok {
      fragmentId := slice payload 0 fragmentIdSize
      index, total
      originalType := (byteAt payload 12).toNat
      dataOffset := fragmentHeaderSize
      dataLen := payload.length - fragmentHeaderSize }

structure AssemblyState where
  senderId : Bytes
  fragmentId : Bytes
  total : Nat
  originalType : Nat
  chunks : InsertionMap Nat Bytes := .empty
  totalBytes : Nat := 0
deriving DecidableEq

structure NimFragmentReassembler where
  maxActiveAssemblies : Nat
  maxFragmentsPerAssembly : Nat
  maxReassembledBytes : Nat
  assemblies : InsertionMap AssemblyKey AssemblyState := .empty
  activeKeys : List AssemblyKey := []
deriving DecidableEq

/-- What `addFragment` returns and assigns. -/
structure Added where
  status : Int
  reassembledData : Bytes := []
  isComplete : Bool := false
deriving DecidableEq

namespace NimFragmentReassembler

def removeKey (key : AssemblyKey) (r : NimFragmentReassembler) : NimFragmentReassembler :=
  { r with assemblies := r.assemblies.erase key, activeKeys := r.activeKeys.erase key }

/-- A full table loses the assembly that was opened first. -/
def makeRoom (r : NimFragmentReassembler) : NimFragmentReassembler :=
  if r.maxActiveAssemblies ≤ r.assemblies.size then
    match r.activeKeys with
    | oldest :: _ => r.removeKey oldest
    | [] => r
  else r

def openAssembly (key : AssemblyKey) (state : AssemblyState) (r : NimFragmentReassembler) :
    NimFragmentReassembler :=
  { r with assemblies := r.assemblies.set key state, activeKeys := r.activeKeys ++ [key] }

/-- The end of `addFragment`: a complete assembly is joined and removed. -/
def finish (key : AssemblyKey) (state : AssemblyState) (r : NimFragmentReassembler) :
    Added × NimFragmentReassembler :=
  if state.chunks.size = state.total ∧
      (List.range state.total).all (fun idx => state.chunks.contains (uint16 idx)) then
    let joined := (List.range state.total).flatMap fun idx => (state.chunks.get? (uint16 idx)).getD []
    ({ status := bitchatOk, reassembledData := filled state.totalBytes joined, isComplete := true },
      r.removeKey key)
  else ({ status := bitchatOk }, r)

/-- The chunk enters the assembly that the table holds for its key. -/
def storeChunk (key : AssemblyKey) (state : AssemblyState) (index : Nat) (chunkSlice : Bytes)
    (r : NimFragmentReassembler) : Added × NimFragmentReassembler :=
  match state.chunks.get? index with
  | some existing =>
    if existing ≠ chunkSlice then ({ status := errConflictingFragment }, r.removeKey key)
    else r.finish key state
  | none =>
    let newTotalBytes := state.totalBytes + chunkSlice.length
    if r.maxReassembledBytes < newTotalBytes then ({ status := errFragmentLimit }, r.removeKey key)
    else
      let state := { state with chunks := state.chunks.set index chunkSlice, totalBytes := newTotalBytes }
      { r with assemblies := r.assemblies.set key state }.finish key state

def addFragment (senderId payload : Bytes) (r : NimFragmentReassembler) : Added × NimFragmentReassembler :=
  if senderId.length ≠ senderIdSize ∨ payload.length < fragmentHeaderSize then
    ({ status := errInvalidInput }, r)
  else
    match parseFragmentPayload payload with
    | .error status => ({ status }, r)
    | .ok raw =>
      if uint16 r.maxFragmentsPerAssembly < raw.total then ({ status := errFragmentLimit }, r)
      else
        let key : AssemblyKey := (senderId, raw.fragmentId)
        let chunkSlice := slice payload raw.dataOffset (raw.dataOffset + raw.dataLen)
        match r.assemblies.get? key with
        | some state =>
          if state.total ≠ raw.total ∨ state.originalType ≠ raw.originalType then
            ({ status := errInvalidInput }, r.removeKey key)
          else r.storeChunk key state raw.index chunkSlice
        | none =>
          let state : AssemblyState :=
            { senderId, fragmentId := raw.fragmentId, total := raw.total, originalType := raw.originalType }
          (r.makeRoom.openAssembly key state).storeChunk key state raw.index chunkSlice

/-- The keys are listed once each. -/
structure Indexed (r : NimFragmentReassembler) : Prop where
  nodup : r.activeKeys.Nodup
  listed : ∀ key, key ∈ r.activeKeys ↔ ∃ state, r.assemblies.get? key = some state

/-- From one table to another in which only the entry of a key may differ. -/
structure Moves (key : AssemblyKey) (left : Option AssemblyState) (r t : NimFragmentReassembler) : Prop where
  entries : ∀ other, t.assemblies.get? other = if other = key then left else r.assemblies.get? other
  indexed : Indexed t
  active : t.maxActiveAssemblies = r.maxActiveAssemblies
  fragments : t.maxFragmentsPerAssembly = r.maxFragmentsPerAssembly
  bytes : t.maxReassembledBytes = r.maxReassembledBytes

section Tables
variable {r s t : NimFragmentReassembler} {key : AssemblyKey} {state : AssemblyState}
  {left middle : Option AssemblyState}

theorem Moves.trans (first : Moves key middle r s) (second : Moves key left s t) : Moves key left r t := by
  refine ⟨fun other => ?_, second.indexed, second.active.trans first.active,
    second.fragments.trans first.fragments, second.bytes.trans first.bytes⟩
  rw [second.entries, first.entries]
  split <;> rfl

theorem moves_refl (indexed : Indexed r) (here : r.assemblies.get? key = left) : Moves key left r r := by
  refine ⟨fun other => ?_, indexed, rfl, rfl, rfl⟩
  split
  · next same => rw [same, here]
  · rfl

theorem moves_removeKey (indexed : Indexed r) (key : AssemblyKey) : Moves key none r (r.removeKey key) := by
  have entries : ∀ other, (r.removeKey key).assemblies.get? other =
      if other = key then none else r.assemblies.get? other := by
    intro other
    rw [removeKey, InsertionMap.get?_erase]
  refine ⟨entries, ⟨indexed.nodup.erase key, fun other => ?_⟩, rfl, rfl, rfl⟩
  rw [entries, removeKey, indexed.nodup.mem_erase_iff, indexed.listed]
  split
  · next same => simp [same]
  · next different => simp [different]

theorem moves_set (indexed : Indexed r) (held : r.assemblies.get? key = some state) (next : AssemblyState) :
    Moves key (some next) r { r with assemblies := r.assemblies.set key next } := by
  have entries : ∀ other, (r.assemblies.set key next).get? other =
      if other = key then some next else r.assemblies.get? other :=
    fun other => InsertionMap.get?_set _ _ other _
  refine ⟨entries, ⟨indexed.nodup, fun other => ?_⟩, rfl, rfl, rfl⟩
  rw [entries, indexed.listed]
  split
  · next same => simp [same, held]
  · rfl

theorem moves_openAssembly (indexed : Indexed r) (unknown : r.assemblies.get? key = none) (state : AssemblyState) :
    Moves key (some state) r (r.openAssembly key state) := by
  have entries : ∀ other, (r.openAssembly key state).assemblies.get? other =
      if other = key then some state else r.assemblies.get? other :=
    fun other => InsertionMap.get?_set _ _ other _
  have absent : key ∉ r.activeKeys := by
    rw [indexed.listed, unknown]
    simp
  refine ⟨entries, ⟨?_, fun other => ?_⟩, rfl, rfl, rfl⟩
  · exact indexed.nodup.append (List.nodup_singleton key) (List.disjoint_singleton.mpr absent)
  · rw [entries, openAssembly, List.mem_append, indexed.listed, List.mem_singleton]
    split
    · next same => simp [same]
    · next different => simp [different]

end Tables
end NimFragmentReassembler
end Bitchat.Nim
