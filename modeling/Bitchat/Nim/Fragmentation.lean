import Bitchat.Nim.ReassemblyAgreement
import Bitchat.Protocol.FragmentDelivery

/-! Fragmentation in the Nim prototype. It cuts messages as Python does, byte for byte, and puts together
what either of them has cut. -/
namespace Bitchat.Nim
open Bytes
open Protocol (AssemblyKey ReassemblyLimits FragmentFields BitchatPacket)
open Protocol.FragmentReassembler (HoldsChunks refusal assemble)

def fragmentationThreshold : Nat := 500
def fragmentChunkSize : Nat := 150

def shouldFragment (dataLen : Nat) : Bool := fragmentationThreshold < dataLen

/-- The rest of the loop, at the offset `i`. -/
def splitFrom (data : Bytes) (sz : Nat) (positive : 0 < sz) (i : Nat) : List Bytes :=
  if i < data.length then
    slice data i (min (i + sz) data.length) :: splitFrom data sz positive (i + sz)
  else []
termination_by data.length - i

/-- Chunks of less than one byte are made of the usual size. -/
def splitChunks (data : Bytes) (chunkSize : Int := fragmentChunkSize) : List Bytes :=
  if data = [] then []
  else if positive : 1 ≤ chunkSize then splitFrom data chunkSize.toNat (by omega) 0
  else splitFrom data fragmentChunkSize (by decide) 0

/-- The result is `none` where memory outside of the pointers' data would be read. -/
def createFragmentPayload (fragId : Option Bytes) (index total : UInt16) (origType : UInt8)
    (chunkData : Option Bytes) (chunkLen : Nat) : Option Bytes :=
  let totalLen := fragmentHeaderSize + chunkLen
  fragId.bind fun source =>
  (copyMem (List.replicate totalLen 0) 0 source fragmentIdSize).bind fun result =>
    let result := result.set 8 (index >>> 8 &&& 0xFF).toUInt8
    let result := result.set 9 (index &&& 0xFF).toUInt8
    let result := result.set 10 (total >>> 8 &&& 0xFF).toUInt8
    let result := result.set 11 (total &&& 0xFF).toUInt8
    let result := result.set 12 origType
    (copyField (0 < chunkLen) chunkData chunkLen result fragmentHeaderSize).map Prod.fst

/-- The overload of `createFragmentPayload` for arrays. -/
def createFragmentPayloadArrays (fragId : Bytes) (index total : UInt16) (origType : UInt8)
    (chunkData : Bytes) : Option Bytes :=
  createFragmentPayload (addrOf fragId) index total origType (addrOf chunkData) chunkData.length

section Cutting
variable {data fragmentId chunk : Bytes} {sz : Nat}

/-- A chunk ends with the data at the latest. -/
theorem slice_min (data : Bytes) (start stop : Nat) :
    slice data start (min stop data.length) = slice data start stop := by
  rcases Nat.le_total stop data.length with inside | beyond
  · rw [Nat.min_eq_left inside]
  · rw [Nat.min_eq_right beyond, slice, slice, List.take_of_length_le (by simp),
      List.take_of_length_le (by rw [List.length_drop]; omega)]

/-- By induction on the chunks that are left. -/
theorem splitFrom_eq (data : Bytes) (positive : 0 < sz) (done left : Nat)
    (whole : done + left = (data.length + sz - 1) / sz) :
    splitFrom data sz positive (done * sz) =
      (List.range' done left).map fun k => slice data (k * sz) (k * sz + sz) := by
  have parts := Nat.div_add_mod (data.length + sz - 1) sz
  have rest := Nat.mod_lt (data.length + sz - 1) positive
  rw [← whole] at parts
  induction left generalizing done with
  | zero =>
    have atEnd : ¬ done * sz < data.length := by
      rw [Nat.add_zero, Nat.mul_comm] at parts
      omega
    rw [splitFrom, if_neg atEnd]
    rfl
  | succ left ih =>
    have more : done * sz < data.length := by
      rw [Nat.mul_add, Nat.mul_comm sz done, Nat.mul_comm sz (left + 1), Nat.succ_mul] at parts
      omega
    have next : done * sz + sz = (done + 1) * sz := (Nat.succ_mul done sz).symm
    have shifted : done + 1 + left = done + (left + 1) := by omega
    rw [splitFrom, if_pos more, slice_min, next, ih (done + 1) (shifted.trans whole) (shifted ▸ parts),
      List.range'_succ, List.map_cons, next]

/-- The prototype cuts into the same chunks. -/
theorem splitChunks_eq (nonempty : data ≠ []) :
    splitChunks data = Protocol.chunksOf data Protocol.fragmentChunkSize := by
  have size : ((fragmentChunkSize : Nat) : Int).toNat = Protocol.fragmentChunkSize := rfl
  have positive : 0 < Protocol.fragmentChunkSize := by decide
  have cut := splitFrom_eq data positive 0
    ((data.length + Protocol.fragmentChunkSize - 1) / Protocol.fragmentChunkSize) (Nat.zero_add _)
  rw [Nat.zero_mul] at cut
  rw [splitChunks, if_neg nonempty, dif_pos (by decide), Protocol.chunksOf, List.range_eq_range']
  exact cut

/-- The header, and the chunk behind it. -/
theorem createFragmentPayloadArrays_eq {index total type : Nat} (idSize : fragmentId.length = fragmentIdSize)
    (index_lt : index < total) (total_le : total ≤ Protocol.maxFragmentsPerAssembly) :
    createFragmentPayloadArrays fragmentId (UInt16.ofNat index) (UInt16.ofNat total) (UInt8.ofNat type) chunk =
      some (fragmentId ++ Protocol.fragmentNumbers index total type ++ chunk) := by
  have most : Protocol.maxFragmentsPerAssembly = 1000 := rfl
  have below : UInt16.size = 65536 := rfl
  have wordIndex : (UInt16.ofNat index).toNat = index := UInt16.toNat_ofNat_of_lt' (by omega)
  have wordTotal : (UInt16.ofNat total).toNat = total := UInt16.toNat_ofNat_of_lt' (by omega)
  have named : addrOf fragmentId = some fragmentId := if_neg (by rintro rfl; cases idSize)
  have eight : fragmentId.length = 8 := idSize
  obtain ⟨length, whole⟩ : ∃ length, length = fragmentHeaderSize + chunk.length := ⟨_, rfl⟩
  have thirteen : fragmentHeaderSize = 13 := rfl
  have new : List.replicate length (0 : UInt8) = filled length [] := by simp [filled]
  have copied : copyMem (filled length []) 0 fragmentId fragmentIdSize = some (filled length fragmentId) := by
    have room : 0 + fragmentIdSize ≤ length := by simp only [fragmentIdSize]; omega
    have nothing : ([] : Bytes).length = 0 := rfl
    rw [filled_copyMem nothing idSize.ge room, List.take_of_length_le idSize.le, List.nil_append]
  have header : ((writeBigEndian16 (writeBigEndian16 (filled length fragmentId) 8 (UInt16.ofNat index)) 10
      (UInt16.ofNat total)).set 12 (UInt8.ofNat type)) =
      filled length (fragmentId ++ Protocol.fragmentNumbers index total type) := by
    rw [filled_writeBigEndian16 eight (by omega), filled_writeBigEndian16 (by simp [eight]) (by omega),
      filled_set (by simp [eight]) (by omega), wordIndex, wordTotal]
    simp [Protocol.fragmentNumbers, toBE, toLE]
  have front : (fragmentId ++ Protocol.fragmentNumbers index total type).length = fragmentHeaderSize := by
    rw [List.length_append, Protocol.fragmentNumbers_length, eight]
    rfl
  have placed : copyField (0 < chunk.length) (addrOf chunk) chunk.length
      (filled length (fragmentId ++ Protocol.fragmentNumbers index total type)) fragmentHeaderSize =
      some (filled length (fragmentId ++ Protocol.fragmentNumbers index total type ++ chunk),
        fragmentHeaderSize + chunk.length) := by
    refine filled_copyField length front whole.ge fun some => ⟨?_, rfl⟩
    simpa using List.length_pos_iff.mpr some
  simp only [writeBigEndian16] at header
  simp only [createFragmentPayloadArrays, createFragmentPayload, named, Option.bind_some, ← whole, new, copied,
    header, placed, Option.map_some]
  rw [filled_whole]
  rw [List.length_append, front, whole]

end Cutting

/-- The calls of the reassembler. -/
inductive Call where
  | addFragment (senderId payload : Bytes)
  | clear
deriving DecidableEq

namespace NimFragmentReassembler

def clear (q : NimFragmentReassembler) : NimFragmentReassembler :=
  { q with assemblies := .empty, activeKeys := [] }

def perform (q : NimFragmentReassembler) : Call → Added × NimFragmentReassembler
  | .addFragment senderId payload => q.addFragment senderId payload
  | .clear => ({ status := bitchatOk }, q.clear)

def Step (q : NimFragmentReassembler) (label : Call × Added) (t : NimFragmentReassembler) : Prop :=
  q.perform label.1 = (label.2, t)

abbrev History := List (Taken NimFragmentReassembler (Call × Added))

end NimFragmentReassembler

/-- The key that a call's fragment belongs to. -/
def Call.key : Call → Option AssemblyKey
  | .addFragment senderId payload =>
    match parseFragmentPayload payload with
    | .ok raw => some (senderId, raw.fragmentId)
    | .error _ => none
  | .clear => none

section Twins
variable {lim : ReassemblyLimits} {r : Protocol.FragmentReassembler} {q t : NimFragmentReassembler}

/-- A Python table that would make room as the prototype does. -/
theorem Related.front (related : Related lim r q) : ∃ r', Related lim r' q ∧
    r'.assemblies.entries.head?.map Prod.fst = q.activeKeys.head? := by
  cases listed : q.activeKeys with
  | nil =>
    refine ⟨r, related, ?_⟩
    have empty : r.assemblies.entries = [] := by
      rw [List.eq_nil_iff_forall_not_mem]
      intro e member
      have held := related.entries e.1
      rw [InsertionMap.get?_eq_some_of_mem member] at held
      have active := (related.indexed.listed e.1).mpr ⟨_, held⟩
      rw [listed] at active
      cases active
    rw [empty]
    rfl
  | cons key rest =>
    obtain ⟨state, held⟩ := (related.indexed.listed key).mp (listed ▸ List.mem_cons_self)
    rw [related.entries, Option.map_eq_some_iff] at held
    obtain ⟨python, found, -⟩ := held
    obtain ⟨n, same, first⟩ := InsertionMap.exists_front found
    have sized : n.size = r.assemblies.size :=
      InsertionMap.size_eq_of_contains fun j => by rw [InsertionMap.contains, InsertionMap.contains, same]
    refine ⟨⟨n⟩, ⟨⟨?_, fun j state here => ?_⟩, related.indexed, related.active, related.fragments,
      related.bytes, fun j => ?_⟩, ?_⟩
    · exact sized.trans_le related.bounded.active
    · exact related.bounded.sound j state ((same j).symm.trans here)
    · exact (related.entries j).trans (congrArg (Option.map ofPython) (same j).symm)
    · rw [first]
      rfl

/-- The step of both tables, where they make room for the same assembly. -/
theorem Related.addFragment {senderId payload : Bytes} (small : lim.maxFragmentsPerAssembly ≤ 65535)
    (related : Related lim r q) : ∃ r', Related lim r' (q.addFragment senderId payload).2 := by
  by_cases sized : senderId.length = senderIdSize
  · obtain ⟨r', twin, first⟩ := related.front
    let input : ReassemblyInput := ⟨0, senderId, payload, sized⟩
    have same : SameVictim lim (r', q) input := fun _ _ _ _ _ => first
    have stepped : Related lim (addBoth lim input (r', q)).2.1 (addBoth lim input (r', q)).2.2 :=
      Related.step (s := (r', q)) small twin same
    exact ⟨_, stepped⟩
  · refine ⟨r, ?_⟩
    rw [NimFragmentReassembler.addFragment, if_pos (Or.inl sized)]
    exact related

theorem Related.clear (related : Related lim r q) : Related lim .new q.clear where
  bounded := (newNim_related lim).bounded
  indexed := ⟨(newNim_related lim).indexed.nodup, (newNim_related lim).indexed.listed⟩
  active := related.active
  fragments := related.fragments
  bytes := related.bytes
  entries := (newNim_related lim).entries

/-- Every table of the prototype is the image of a Python table. -/
theorem Related.perform {label : Call × Added} (small : lim.maxFragmentsPerAssembly ≤ 65535)
    (related : Related lim r q) (step : q.Step label t) : ∃ r', Related lim r' t := by
  obtain ⟨call, added⟩ := label
  have left : (q.perform call).2 = t := congrArg Prod.snd step
  rw [← left]
  cases call with
  | addFragment senderId payload => exact related.addFragment small
  | clear => exact ⟨_, related.clear⟩

/-- A fragment touches no other assembly, but a full table loses one to it. -/
theorem Related.other {senderId payload : Bytes} {key : AssemblyKey} (small : lim.maxFragmentsPerAssembly ≤ 65535)
    (related : Related lim r q) (other : (Call.addFragment senderId payload).key ≠ some key) :
    (q.addFragment senderId payload).2.assemblies.get? key = q.assemblies.get? key ∨
      (q.addFragment senderId payload).2.assemblies.get? key = none := by
  by_cases sized : senderId.length = senderIdSize
  · have cases' := addBoth_cases (s := (r, q)) small related ⟨0, senderId, payload, sized⟩
    rcases cases' with refused | ⟨fields, read, _, taken⟩
    · have kept : (q.addFragment senderId payload).2 = q := congrArg Prod.snd refused.kept
      exact Or.inl (by rw [kept])
    · have different : key ≠ (senderId, fields.fragmentId) := by
        rintro rfl
        rcases parse_agrees payload with ⟨⟨e, raised⟩, -⟩ | ⟨found, read', parsed, -⟩
        · cases raised.symm.trans read
        · obtain rfl : fields = found := Except.ok.inj (read.symm.trans read')
          exact other (by simp only [Call.key, parsed]; rfl)
      have entry := taken.nim key different
      by_cases displaced : Displaces lim (r, q) (senderId, fields.fragmentId) ∧ q.activeKeys.head? = some key
      · exact Or.inr (entry.trans (if_pos displaced))
      · exact Or.inl (entry.trans (if_neg displaced))
  · refine Or.inl ?_
    rw [NimFragmentReassembler.addFragment, if_pos (Or.inl sized)]

end Twins

open NimFragmentReassembler (History)

/-- One of the calls brought the payload from the sender. -/
def Delivered (senderId payload : Bytes) (calls : History) : Prop :=
  ∃ e ∈ calls, e.label.1 = .addFragment senderId payload

/-- The payloads of one message, in any order and number, among calls that concern other keys and never
cost the message its assembly. -/
structure Delivery (key : AssemblyKey) (payloads : List Bytes) (calls : History) : Prop where
  ownOrOther : ∀ e ∈ calls, (∃ payload ∈ payloads, e.label.1 = .addFragment key.1 payload) ∨
    e.label.1.key ≠ some key
  neverEvicted : ∀ e ∈ calls, e.label.1.key ≠ some key →
    e.before.assemblies.get? key ≠ none → e.after.assemblies.get? key ≠ none

theorem Delivery.append_left {key : AssemblyKey} {payloads : List Bytes} {calls more : History}
    (delivery : Delivery key payloads (calls ++ more)) : Delivery key payloads calls where
  ownOrOther e member := delivery.ownOrOther e (List.mem_append_left _ member)
  neverEvicted e member := delivery.neverEvicted e (List.mem_append_left _ member)

/-- A message in chunks, small enough for the reassembler's limits. -/
structure Message (lim : ReassemblyLimits) where
  senderId : Bytes
  fragmentId : Bytes
  type : Nat
  total : Nat
  chunkAt : Nat → Bytes
  senderId_size : senderId.length = senderIdSize
  fragmentId_size : fragmentId.length = fragmentIdSize
  type_le : type ≤ 255
  total_le : total ≤ lim.maxFragmentsPerAssembly
  total_most : total ≤ Protocol.maxFragmentsPerAssembly
  chunks_short : ∀ i < total, (chunkAt i).length ≤ Protocol.fragmentChunkSize
  room : total * Protocol.fragmentChunkSize ≤ lim.maxReassembledBytes

namespace Message
variable {lim : ReassemblyLimits} (m : Message lim)

def key : AssemblyKey := (m.senderId, m.fragmentId)

def payload (i : Nat) : Bytes := m.fragmentId ++ Protocol.fragmentNumbers i m.total m.type ++ m.chunkAt i

def payloads : List Bytes := (List.range m.total).map m.payload

/-- What a reassembler reads from the payload. -/
def fields (i : Nat) : FragmentFields := ⟨m.fragmentId, i, m.total, m.type, m.chunkAt i⟩

/-- The assembly of the message holds the delivered chunks. -/
def Holds (delivered : Nat → Prop) (q : NimFragmentReassembler) : Prop :=
  ∀ held : Option Protocol.AssemblyState, q.assemblies.get? m.key = held.map ofPython →
    HoldsChunks m.total m.type m.chunkAt delivered held

/-- What `addFragment` gives while chunks are missing, and when none is. -/
def Waits (added : Added) : Prop := added.status = bitchatOk ∧ added.isComplete = false

def Completes (added : Added) : Prop := added.status = bitchatOk ∧ added.isComplete = true ∧
  added.reassembledData = (List.range m.total).flatMap m.chunkAt

variable {m} {i : Nat} {delivered : Nat → Prop} {r : Protocol.FragmentReassembler} {q t : NimFragmentReassembler}

theorem Holds.of_entry {held : Option Protocol.AssemblyState} (entry : q.assemblies.get? m.key = held.map ofPython)
    (holds : HoldsChunks m.total m.type m.chunkAt delivered held) : m.Holds delivered q := by
  intro other entry'
  have same := entry.symm.trans entry'
  cases held with
  | none =>
    cases other with
    | none => exact holds
    | some => cases same
  | some state =>
    cases other with
    | none => cases same
    | some state' =>
      simp only [Option.map_some, Option.some.injEq, ofPython, AssemblyState.mk.injEq] at same
      obtain ⟨-, -, total, type, chunks, bytes⟩ := same
      obtain ⟨sameTotal, sameType, count, each⟩ := holds
      exact ⟨total ▸ sameTotal, type ▸ sameType, by rw [← bytes, ← chunks, count], fun j chunk => by
        rw [← chunks, each]⟩

theorem read (index_lt : i < m.total) : Protocol.parseFragmentPayload (m.payload i) = .ok (m.fields i) :=
  Protocol.parseFragmentPayload_eq m.fragmentId_size index_lt m.total_most m.type_le _

theorem payload_key (index_lt : i < m.total) : (Call.addFragment m.senderId (m.payload i)).key = some m.key := by
  rcases parse_agrees (m.payload i) with ⟨⟨e, raised⟩, -⟩ | ⟨found, read', parsed, -⟩
  · cases raised.symm.trans (read index_lt)
  · obtain rfl : m.fields i = found := Except.ok.inj ((read index_lt).symm.trans read')
    simp only [Call.key, parsed]
    rfl

theorem payload_injective {j : Nat} (index_lt : i < m.total) (index_lt' : j < m.total)
    (same : m.payload i = m.payload j) : i = j := by
  have fields := (read index_lt).symm.trans ((congrArg _ same).trans (read index_lt'))
  exact congrArg FragmentFields.index (Except.ok.inj fields)

variable (small : lim.maxFragmentsPerAssembly ≤ 65535) (related : Related lim r q)
include small related

/-- A payload of the message is taken as Python takes it. -/
theorem own_step (index_lt : i < m.total) (holds : m.Holds delivered q) (below : ∀ j, delivered j → j < m.total)
    (waits : ∃ j < m.total, ¬ delivered j) :
    ((∃ j < m.total, ¬ (delivered j ∨ j = i)) → Waits (q.addFragment m.senderId (m.payload i)).1 ∧
      m.Holds (fun j => delivered j ∨ j = i) (q.addFragment m.senderId (m.payload i)).2) ∧
    ((∀ j < m.total, delivered j ∨ j = i) → m.Completes (q.addFragment m.senderId (m.payload i)).1) := by
  have held := holds _ (related.entries m.key)
  rcases parse_agrees (m.payload i) with ⟨⟨e, raised⟩, -⟩ | ⟨found, read', parsed, long, -, carried⟩
  · cases raised.symm.trans (read index_lt)
  · obtain rfl : m.fields i = found := Except.ok.inj ((read index_lt).symm.trans read')
    have accepted : refusal lim (m.fields i) = none :=
      Protocol.FragmentReassembler.refusal_eq_none.mpr ⟨index_lt, m.total_le⟩
    have own : (m.senderId, (m.fields i).fragmentId) = m.key := rfl
    obtain ⟨outcome, moves⟩ := addFragment_assemble small related m.senderId_size long parsed carried accepted own 0
    have entry := moves.entries m.key
    rw [if_pos rfl] at entry
    obtain ⟨⟨result, left⟩, assembled⟩ : ∃ pair, assemble lim 0 m.key (m.fields i)
      (r.assemblies.get? m.key) = pair := ⟨_, rfl⟩
    rw [assembled] at outcome entry
    obtain ⟨more, done⟩ := Protocol.FragmentReassembler.assemble_own held below index_lt m.total_le
      m.chunks_short m.room waits assembled
    constructor
    · intro missing
      obtain ⟨none, left⟩ := more missing
      rw [none] at outcome
      exact ⟨outcome, .of_entry entry left⟩
    · intro all
      rw [done all] at outcome
      exact outcome

/-- Another call leaves the assembly alone, unless it costs the message its assembly. -/
theorem other_step {call : Call} {added : Added} (step : q.Step (call, added) t) (other : call.key ≠ some m.key)
    (stays : q.assemblies.get? m.key ≠ none → t.assemblies.get? m.key ≠ none) :
    t.assemblies.get? m.key = q.assemblies.get? m.key := by
  have left : (q.perform call).2 = t := congrArg Prod.snd step
  by_cases held : q.assemblies.get? m.key = none
  · rw [← left, held]
    cases call with
    | addFragment senderId payload =>
      exact (related.other small other).elim (fun same => same.trans held) id
    | clear => rfl
  · have here := stays held
    rw [← left] at here ⊢
    cases call with
    | addFragment senderId payload =>
      exact (related.other small other).elim id fun gone => absurd gone here
    | clear => exact absurd rfl here

end Message

namespace Message
variable {lim : ReassemblyLimits} {m : Message lim} {i : Nat} {q t : NimFragmentReassembler} {history : History}

/-- The chunks of the message that some calls brought. -/
def Delivers (m : Message lim) (calls : History) (i : Nat) : Prop :=
  i < m.total ∧ Delivered m.senderId (m.payload i) calls

theorem delivered_snoc {senderId payload : Bytes} {last : Taken NimFragmentReassembler (Call × Added)} :
    Delivered senderId payload (history ++ [last]) ↔
      Delivered senderId payload history ∨ last.label.1 = .addFragment senderId payload := by
  simp only [Delivered, List.mem_append, List.mem_singleton, or_and_right, exists_or, exists_eq_left]

theorem delivers_own (index_lt : i < m.total) (added : Added) :
    m.Delivers (history ++ [⟨q, (.addFragment m.senderId (m.payload i), added), t⟩]) =
      fun j => m.Delivers history j ∨ j = i := by
  funext j
  rw [Delivers, Delivers, delivered_snoc, eq_iff_iff]
  constructor
  · rintro ⟨below, earlier | now⟩
    · exact Or.inl ⟨below, earlier⟩
    · exact Or.inr (payload_injective index_lt below (Call.addFragment.inj now).2).symm
  · rintro (⟨below, earlier⟩ | rfl)
    · exact ⟨below, Or.inl earlier⟩
    · exact ⟨index_lt, Or.inr rfl⟩

theorem delivers_other {call : Call} (added : Added) (other : call.key ≠ some m.key) :
    m.Delivers (history ++ [⟨q, (call, added), t⟩]) = m.Delivers history := by
  funext j
  rw [Delivers, Delivers, delivered_snoc, eq_iff_iff]
  refine and_congr_right fun below => or_iff_left fun now => other ?_
  rw [show call = _ from now, payload_key below]

theorem delivers_mono {more : History} {j : Nat} (delivers : m.Delivers history j) :
    m.Delivers (history ++ more) j := by
  obtain ⟨below, e, member, call⟩ := delivers
  exact ⟨below, e, List.mem_append_left _ member, call⟩

/-- A call that brings a payload of the message, or another call. -/
theorem own_or_other {last : Taken NimFragmentReassembler (Call × Added)}
    (delivery : Delivery m.key m.payloads (history ++ [last])) :
    (∃ i < m.total, last.label.1 = .addFragment m.senderId (m.payload i)) ∨ last.label.1.key ≠ some m.key := by
  have here : last ∈ history ++ [last] := List.mem_append_right _ (List.mem_singleton_self _)
  rcases delivery.ownOrOther last here with ⟨payload, member, call⟩ | other
  · obtain ⟨i, below, rfl⟩ := List.mem_map.mp member
    exact Or.inl ⟨i, List.mem_range.mp below, call⟩
  · exact Or.inr other

section Run
variable {start : NimFragmentReassembler} (small : lim.maxFragmentsPerAssembly ≤ 65535)
  (mirrored : ∃ r, Related lim r start) (absent : start.assemblies.get? m.key = none)
include small mirrored absent

/-- While a chunk is missing, the assembly holds what was delivered and every payload of the message was
accepted without completing it. By induction on the run. -/
theorem run_holds (run : Run NimFragmentReassembler.Step start history q) (delivery : Delivery m.key m.payloads history)
    (missing : ∃ i < m.total, ¬ m.Delivers history i) : (∃ r, Related lim r q) ∧
    m.Holds (m.Delivers history) q ∧ ∀ e ∈ history, ∀ i < m.total,
      e.label.1 = .addFragment m.senderId (m.payload i) → Waits e.label.2 := by
  induction run with
  | nil =>
    have entry : start.assemblies.get? m.key = (none : Option Protocol.AssemblyState).map ofPython := absent
    refine ⟨mirrored, .of_entry entry ?_, by simp⟩
    rintro i ⟨_, e, member, _⟩
    cases member
  | @snoc history q label t _ step ih =>
    obtain ⟨call, added⟩ := label
    obtain ⟨i, below, still⟩ := missing
    have missingBefore : ∃ i < m.total, ¬ m.Delivers history i := ⟨i, below, fun before => still (delivers_mono before)⟩
    obtain ⟨⟨r, related⟩, holds, quiet⟩ := ih delivery.append_left missingBefore
    have twin := related.perform small step
    rcases own_or_other delivery with ⟨k, index_lt, same⟩ | other
    · obtain rfl : call = _ := same
      have taken : q.addFragment m.senderId (m.payload k) = (added, t) := step
      have own := own_step small related index_lt holds (fun _ delivers => delivers.1) missingBefore
      rw [taken] at own
      rw [delivers_own index_lt] at still ⊢
      obtain ⟨waits, left⟩ := own.1 ⟨i, below, still⟩
      refine ⟨twin, left, fun e member j index_lt' same => ?_⟩
      rcases List.mem_append.mp member with earlier | last
      · exact quiet e earlier j index_lt' same
      · rw [List.mem_singleton.mp last]
        exact waits
    · have last : (⟨q, (call, added), t⟩ : Taken _ _) ∈ history ++ [⟨q, (call, added), t⟩] := by simp
      have kept := other_step small related step other (delivery.neverEvicted _ last other)
      rw [delivers_other added other]
      refine ⟨twin, fun held entry => holds held (kept.symm.trans entry), fun e member j index_lt' same => ?_⟩
      rcases List.mem_append.mp member with earlier | last
      · exact quiet e earlier j index_lt' same
      · rw [List.mem_singleton.mp last] at same
        exact absurd (same ▸ payload_key index_lt') other

/-- The payload after which no chunk is missing completes the message. -/
theorem run_completes {last : Taken NimFragmentReassembler (Call × Added)}
    (run : Run NimFragmentReassembler.Step start (history ++ [last]) q) (delivery : Delivery m.key m.payloads (history ++ [last]))
    (missing : ∃ i < m.total, ¬ m.Delivers history i) (index_lt : i < m.total)
    (own : last.label.1 = .addFragment m.senderId (m.payload i))
    (all : ∀ j < m.total, m.Delivers (history ++ [last]) j) : m.Completes last.label.2 := by
  obtain ⟨before, step⟩ := run.split
  obtain ⟨⟨r, related⟩, holds, -⟩ := run_holds small mirrored absent before delivery.append_left missing
  obtain ⟨q, ⟨call, added⟩, t⟩ := last
  obtain rfl : call = _ := own
  have taken : q.addFragment m.senderId (m.payload i) = (added, t) := step
  have done := (own_step small related index_lt holds (fun _ delivers => delivers.1) missing).2
  rw [taken] at done
  refine done fun j below => ?_
  have delivers := all j below
  rw [delivers_own index_lt] at delivers
  exact delivers

end Run
end Message

section Interoperation
variable {encoded senderId fragmentId : Bytes} {type total : Nat} {ttl timestamp : Int} {fragments : List BitchatPacket}

theorem forall₂_of_mapM {ε α β : Type} {f : α → Except ε β} {l : List α} {ys : List β}
    (mapped : l.mapM f = .ok ys) : List.Forall₂ (fun x y => f x = .ok y) l ys := by
  induction l generalizing ys with
  | nil =>
    cases mapped
    exact .nil
  | cons x rest ih =>
    rw [List.mapM_cons] at mapped
    cases first : f x with
    | error e => simp [first, bind, Except.bind] at mapped
    | ok y =>
      cases others : rest.mapM f with
      | error e => simp [first, others, bind, Except.bind] at mapped
      | ok zs =>
        simp only [first, others, bind, Except.bind, pure, Except.pure, Except.ok.injEq] at mapped
        subst mapped
        exact .cons first (ih others)

/-- The payload of a Python fragment. -/
theorem makeFragment_payload {chunk : Bytes} {index : Nat} {f : BitchatPacket}
    (made : Protocol.makeFragment senderId fragmentId type total ttl timestamp (chunk, index) = .ok f) :
    f.payload = fragmentId ++ Protocol.fragmentNumbers index total type ++ chunk ∧
      createFragmentPayloadArrays fragmentId (UInt16.ofNat index) (UInt16.ofNat total) (UInt8.ofNat type) chunk =
        some f.payload := by
  unfold Protocol.makeFragment at made
  cases created : Protocol.createFragmentPayload fragmentId index total type chunk with
  | error e =>
    rw [created] at made
    cases made
  | ok payload =>
    rw [created] at made
    obtain ⟨-, -, -, -, -, -, -, carried, -⟩ := Protocol.make_eq_ok made
    have checked := created
    unfold Protocol.createFragmentPayload at checked
    obtain ⟨idSize, checked⟩ := Protocol.check_eq_ok.mp checked
    obtain ⟨-, checked⟩ := Protocol.check_eq_ok.mp checked
    obtain ⟨-, checked⟩ := Protocol.check_eq_ok.mp checked
    obtain ⟨total_le, checked⟩ := Protocol.check_eq_ok.mp checked
    obtain ⟨index_lt, checked⟩ := Protocol.check_eq_ok.mp checked
    obtain ⟨type_le, -⟩ := Protocol.check_eq_ok.mp checked
    rw [Protocol.createFragmentPayload_eq (not_not.mp idSize) (not_not.mp index_lt) (not_lt.mp total_le)
      (not_lt.mp type_le)] at created
    have whole := carried.trans (Except.ok.inj created).symm
    refine ⟨whole, ?_⟩
    rw [createFragmentPayloadArrays_eq (not_not.mp idSize) (not_not.mp index_lt) (not_lt.mp total_le), whole]

/-- The fragments of long bytes, chunk by chunk. -/
theorem fragments_made (long : Protocol.fragmentationThreshold < encoded.length)
    (made : Protocol.fragmentEncodedPacket encoded senderId type fragmentId ttl timestamp = .ok fragments) :
    List.Forall₂ (fun c f => Protocol.makeFragment senderId fragmentId type fragments.length ttl timestamp c = .ok f)
      (Protocol.chunksOf encoded Protocol.fragmentChunkSize).zipIdx fragments := by
  have nonempty : encoded ≠ [] := by
    rintro rfl
    cases long
  unfold Protocol.fragmentEncodedPacket at made
  rw [if_neg (by simpa [Protocol.shouldFragment] using long)] at made
  obtain ⟨-, made⟩ := Protocol.check_eq_ok.mp made
  obtain ⟨-, made⟩ := Protocol.check_eq_ok.mp made
  cases cut : Protocol.splitChunks encoded with
  | error e => simp [cut] at made
  | ok chunks =>
    have same : chunks = Protocol.chunksOf encoded Protocol.fragmentChunkSize := by
      unfold Protocol.splitChunks at cut
      rw [if_neg (by decide), if_neg nonempty] at cut
      obtain ⟨-, cut⟩ := Protocol.check_eq_ok.mp cut
      obtain ⟨-, cut⟩ := Protocol.check_eq_ok.mp cut
      exact (Except.ok.inj cut).symm
    subst same
    rw [cut] at made
    have each := forall₂_of_mapM made
    have length := each.length_eq
    rw [List.length_zipIdx] at length
    rwa [length] at each

theorem mem_payloads {lim : ReassemblyLimits} {m : Message lim} (same : fragments.map BitchatPacket.payload = m.payloads)
    {f : BitchatPacket} (member : f ∈ fragments) : ∃ i < m.total, f.payload = m.payload i := by
  have listed : f.payload ∈ m.payloads := same ▸ List.mem_map_of_mem member
  obtain ⟨i, below, named⟩ := List.mem_map.mp listed
  exact ⟨i, List.mem_range.mp below, named.symm⟩

/-- Fragments are missing where chunks are. -/
theorem missing_iff {lim : ReassemblyLimits} {m : Message lim} (same : fragments.map BitchatPacket.payload = m.payloads)
    (history : History) : (∃ g ∈ fragments, ¬ Delivered m.senderId g.payload history) ↔
      ∃ i < m.total, ¬ m.Delivers history i := by
  constructor
  · rintro ⟨g, member, missing⟩
    obtain ⟨i, below, named⟩ := mem_payloads same member
    exact ⟨i, below, fun delivers => missing (named ▸ delivers.2)⟩
  · rintro ⟨i, below, missing⟩
    have listed : m.payload i ∈ fragments.map BitchatPacket.payload :=
      same ▸ List.mem_map_of_mem (List.mem_range.mpr below)
    obtain ⟨g, member, named⟩ := List.mem_map.mp listed
    exact ⟨g, member, fun delivered => missing ⟨below, named ▸ delivered⟩⟩

/-- The prototype cuts a message into the payloads of Python's fragments, byte for byte, and puts together
what Python has cut, whatever the order of arrival and the other calls. -/
theorem fragments_interoperate (p : BitchatPacket) (filler : Nat → UInt8) (addPadding : Bool)
    (fragmentId : Bytes) (ttl timestamp : Int)
    (written : Protocol.encodePacket filler p addPadding = .ok encoded)
    (long : Protocol.fragmentationThreshold < encoded.length) (idSize : fragmentId.length = fragmentIdSize)
    (ttl_byte : 0 ≤ ttl ∧ ttl ≤ 255) (timestamp_word : 0 ≤ timestamp ∧ timestamp ≤ 0xFFFFFFFFFFFFFFFF) :
    ∃ fragments, Protocol.fragmentEncodedPacket encoded p.senderId p.messageType.code fragmentId ttl timestamp =
        .ok fragments ∧
      shouldFragment encoded.length = true ∧
      (splitChunks encoded).zipIdx.map (fun c => createFragmentPayloadArrays fragmentId (UInt16.ofNat c.2)
        (UInt16.ofNat (splitChunks encoded).length) (UInt8.ofNat p.messageType.code) c.1) =
        fragments.map (fun f => some f.payload) ∧
      ∀ earlier start history last q f, Run NimFragmentReassembler.Step (newNim {}) earlier start →
        start.assemblies.get? (p.senderId, fragmentId) = none →
        Run NimFragmentReassembler.Step start (history ++ [last]) q →
        Delivery (p.senderId, fragmentId) (fragments.map BitchatPacket.payload) (history ++ [last]) →
        f ∈ fragments → last.label.1 = .addFragment p.senderId f.payload →
        (∃ g ∈ fragments, ¬ Delivered p.senderId g.payload history) →
          (∀ e ∈ history, ∀ g ∈ fragments, e.label.1 = .addFragment p.senderId g.payload →
            Message.Waits e.label.2) ∧
          ((∃ g ∈ fragments, ¬ Delivered p.senderId g.payload (history ++ [last])) →
            Message.Waits last.label.2) ∧
          ((∀ g ∈ fragments, Delivered p.senderId g.payload (history ++ [last])) →
            last.label.2 = { status := bitchatOk, reassembledData := encoded, isComplete := true }) := by
  have nonempty : encoded ≠ [] := by
    rintro rfl
    cases long
  obtain ⟨fragments, made, few, -, joined, -⟩ := Protocol.FragmentReassembler.fragmentEncodedPacket_carries long
    (Protocol.encodePacket_length written) p.senderId_size idSize (Nat.le_of_lt_succ p.messageType.code_lt)
    ttl_byte timestamp_word
  have each := fragments_made long made
  have count := each.length_eq
  rw [List.length_zipIdx] at count
  let m : Message {} := {
    senderId := p.senderId, fragmentId := fragmentId, type := p.messageType.code, total := fragments.length
    chunkAt := Protocol.FragmentReassembler.chunkAt encoded
    senderId_size := p.senderId_size
    fragmentId_size := idSize
    type_le := Nat.le_of_lt_succ p.messageType.code_lt
    total_le := few.trans (by decide)
    total_most := few.trans (by decide)
    chunks_short := fun i _ => Protocol.FragmentReassembler.chunkAt_length encoded i
    room := (Nat.mul_le_mul_right _ few).trans (by decide) }
  have payloads : fragments.map BitchatPacket.payload = m.payloads := by
    have cut : (Protocol.chunksOf encoded Protocol.fragmentChunkSize).zipIdx.map (fun c => fragmentId ++
        Protocol.fragmentNumbers c.2 fragments.length p.messageType.code ++ c.1) =
        fragments.map BitchatPacket.payload := by
      rw [← List.forall₂_eq_eq_eq, List.forall₂_map_left_iff, List.forall₂_map_right_iff]
      exact each.imp fun c f carried => (makeFragment_payload carried).1.symm
    rw [← cut]
    apply List.ext_getElem
    · simp [Message.payloads, m, count]
    · intro i below _
      simp only [List.length_map, List.length_zipIdx] at below
      simp only [List.getElem_map, List.getElem_zipIdx, Protocol.chunksOf_get, Nat.zero_add, Message.payloads,
        List.getElem_range, Message.payload, Protocol.FragmentReassembler.chunkAt, m]
  refine ⟨fragments, made, decide_eq_true long, ?_, ?_⟩
  · rw [splitChunks_eq nonempty, count, ← List.forall₂_eq_eq_eq, List.forall₂_map_left_iff,
      List.forall₂_map_right_iff]
    exact each.imp fun c f carried => (makeFragment_payload carried).2
  · intro earlier start history last q f begun absent run delivery own call missing
    have small : ({} : ReassemblyLimits).maxFragmentsPerAssembly ≤ 65535 := by decide
    have mirrored : ∃ r, Related {} r start := by
      apply begun.invariant (P := fun q => ∃ r, Related {} r q)
      · exact ⟨_, newNim_related {}⟩
      · rintro _ _ _ ⟨r, related⟩ step
        exact related.perform small step
    rw [payloads] at delivery
    have waiting := (missing_iff (m := m) payloads history).mp missing
    obtain ⟨i, index_lt, named⟩ := mem_payloads (m := m) payloads own
    rw [named] at call
    refine ⟨fun e member g listed same => ?_, fun still => ?_, fun all => ?_⟩
    · obtain ⟨j, below, named⟩ := mem_payloads (m := m) payloads listed
      rw [named] at same
      exact (Message.run_holds (m := m) small mirrored absent run.split.1 delivery.append_left waiting).2.2 e member
        j below same
    · exact (Message.run_holds (m := m) small mirrored absent run delivery
        ((missing_iff (m := m) payloads _).mp still)).2.2 last (by simp) i index_lt call
    · have done : m.Completes last.label.2 := by
        refine Message.run_completes (m := m) small mirrored absent run delivery waiting index_lt call fun j below => ?_
        by_contra none
        obtain ⟨g, listed, absent⟩ := (missing_iff (m := m) payloads _).mpr ⟨j, below, none⟩
        exact absent (all g listed)
      obtain ⟨status, complete, data⟩ := done
      obtain ⟨before, ⟨call, ⟨_, _, _⟩⟩, after⟩ := last
      simp only at status complete data
      rw [status, complete, data]
      exact congrArg (fun data => (⟨bitchatOk, data, true⟩ : Added)) joined

open Protocol.FragmentReassembler (longMessage longEncoded longFragments)

/-- There is a run of given calls. -/
theorem exists_calls (q : NimFragmentReassembler) (calls : List Call) : ∃ history t,
    Run NimFragmentReassembler.Step q history t ∧ history.map (fun e => e.label.1) = calls := by
  induction calls using List.reverseRecOn with
  | nil => exact ⟨[], q, .nil, rfl⟩
  | append_singleton calls call ih =>
    obtain ⟨history, t, run, labels⟩ := ih
    have step : t.Step (call, (t.perform call).1) (t.perform call).2 := rfl
    exact ⟨_, _, run.snoc step, by simp [labels]⟩

/-- The Python fragments of a long message, given to the prototype in reverse order. -/
theorem longFragments_in_nim : ∃ history last q, Run NimFragmentReassembler.Step (newNim {}) (history ++ [last]) q ∧
    (history ++ [last]).map (fun e => e.label.1) =
      longFragments.reverse.map (fun f => .addFragment longMessage.senderId f.payload) ∧
    last.label.2 = { status := bitchatOk, reassembledData := longEncoded, isComplete := true } := by
  have evaluated : Protocol.fragmentEncodedPacket longEncoded longMessage.senderId longMessage.messageType.code
      (List.replicate 8 2) 7 0 = .ok longFragments := by decide +kernel
  have distinct : (longFragments.map BitchatPacket.payload).Nodup := by decide +kernel
  obtain ⟨fragments, made, -, -, delivered⟩ := fragments_interoperate longMessage (fun _ => 0)
    false (List.replicate 8 2) 7 0 (Protocol.encodePacket_eq _ _ _) (by decide +kernel) (by decide) (by decide)
    (by decide)
  obtain rfl : longFragments = fragments := Except.ok.inj (evaluated.symm.trans made)
  obtain ⟨calls, q, run, labels⟩ := exists_calls (newNim {})
    (longFragments.reverse.map fun f => .addFragment longMessage.senderId f.payload)
  obtain ⟨first, rest, shape⟩ : ∃ first rest, longFragments = first :: rest :=
    List.exists_cons_of_ne_nil (by decide +kernel)
  have parts := labels
  rw [shape, List.reverse_cons, List.map_append] at parts
  obtain ⟨history, ends, rfl, before, final⟩ := List.map_eq_append_iff.mp parts
  obtain ⟨last, rfl⟩ : ∃ last, ends = [last] := List.length_eq_one_iff.mp (by
    simpa using congrArg List.length final)
  simp only [List.map_cons, List.map_nil, List.cons.injEq, and_true] at final
  have call : ∀ e ∈ history ++ [last], ∃ payload ∈ longFragments.map BitchatPacket.payload,
      e.label.1 = .addFragment longMessage.senderId payload := by
    intro e member
    have listed := List.mem_map_of_mem (f := fun e => e.label.1) member
    rw [labels] at listed
    obtain ⟨f, mem, same⟩ := List.mem_map.mp listed
    exact ⟨_, List.mem_map_of_mem (List.mem_reverse.mp mem), same.symm⟩
  have brings : ∀ f ∈ longFragments, Delivered longMessage.senderId f.payload (history ++ [last]) := by
    intro f mem
    have listed : Call.addFragment longMessage.senderId f.payload ∈ (history ++ [last]).map fun e => e.label.1 := by
      rw [labels]
      exact List.mem_map.mpr ⟨f, List.mem_reverse.mpr mem, rfl⟩
    obtain ⟨e, member, same⟩ := List.mem_map.mp listed
    exact ⟨e, member, same⟩
  have missing : ¬ Delivered longMessage.senderId first.payload history := by
    rintro ⟨e, member, same⟩
    have listed := List.mem_map_of_mem (f := fun e => e.label.1) member
    rw [before, same] at listed
    obtain ⟨f, mem, same⟩ := List.mem_map.mp listed
    rw [shape, List.map_cons, List.nodup_cons] at distinct
    exact distinct.1 (List.mem_map.mpr ⟨f, List.mem_reverse.mp mem, (Call.addFragment.inj same).2⟩)
  have own : first ∈ longFragments := by simp [shape]
  have keyed : ∀ payload ∈ longFragments.map BitchatPacket.payload,
      (Call.addFragment longMessage.senderId payload).key = some (longMessage.senderId, List.replicate 8 2) := by
    decide +kernel
  refine ⟨history, last, q, run, labels, (delivered [] (newNim {}) history last q first .nil rfl run
    ⟨fun e member => Or.inl (call e member), fun e member other => ?_⟩ own final ⟨first, own, missing⟩).2.2 brings⟩
  obtain ⟨payload, mem, same⟩ := call e member
  exact absurd (same ▸ keyed payload mem) other

end Interoperation

end Bitchat.Nim
