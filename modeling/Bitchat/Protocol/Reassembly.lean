import Bitchat.Data.InsertionMap
import Bitchat.Data.Run
import Bitchat.Protocol.Fragmentation

/-! The fragment reassembler: a bounded table of partial assemblies, one for each
sender and fragment id, from which the entry opened or touched longest ago is
evicted. A call returns its result beside the new table, so that what a raising
call leaves behind can be read off. -/
namespace Bitchat.Protocol

structure AssemblyState where
  senderId : Bytes
  fragmentId : Bytes
  total : Nat
  originalMessageType : Nat
  chunks : InsertionMap Nat Bytes := .empty
  createdAt : Seconds
  totalBytes : Nat := 0
deriving DecidableEq

namespace AssemblyState

/-- `b"".join(state.chunks[i] for i in range(state.total))`. -/
def joinChunks (state : AssemblyState) : Bytes :=
  (List.range state.total).flatMap fun i => (state.chunks.get? i).getD []

def allPresent (state : AssemblyState) : Bool :=
  (List.range state.total).all fun i => state.chunks.contains i

def opened (key : Bytes × Bytes) (total originalType : Nat) (now : Seconds) : AssemblyState where
  senderId := key.1
  fragmentId := key.2
  total := total
  originalMessageType := originalType
  createdAt := now

def withChunk (state : AssemblyState) (index : Nat) (chunkData : Bytes) :
    AssemblyState :=
  { state with
    chunks := state.chunks.set index chunkData
    totalBytes := state.totalBytes + chunkData.length }

end AssemblyState

/-- The constructor's limits, each at least one. -/
structure ReassemblyLimits where
  maxActiveAssemblies : Nat := Protocol.maxActiveAssemblies
  maxFragmentsPerAssembly : Nat := Protocol.maxFragmentsPerAssembly
  maxReassembledBytes : Nat := Protocol.maxReassembledBytes
  maxActiveAssemblies_pos : 1 ≤ maxActiveAssemblies := by decide
  maxFragmentsPerAssembly_pos : 1 ≤ maxFragmentsPerAssembly := by decide
  maxReassembledBytes_pos : 1 ≤ maxReassembledBytes := by decide

/-- The limits of a constructor without arguments. -/
def ReassemblyLimits.standard : ReassemblyLimits := {}

/-- Sender and fragment id. -/
abbrev AssemblyKey := Bytes × Bytes

structure FragmentReassembler where
  assemblies : InsertionMap AssemblyKey AssemblyState
deriving DecidableEq

/-- The return value, `None` as `none`, or the exception raised. -/
abbrev Reassembled := Except ProtocolError (Option Bytes)

namespace FragmentReassembler

def new : FragmentReassembler := ⟨.empty⟩

def clear (_ : FragmentReassembler) : FragmentReassembler := new

def pruneStale (now maxAgeSeconds : Seconds) (r : FragmentReassembler) : FragmentReassembler :=
  ⟨r.assemblies.filter fun entry => !(maxAgeSeconds < now - entry.2.createdAt)⟩

def drop (r : FragmentReassembler) (key : AssemblyKey) : FragmentReassembler :=
  ⟨r.assemblies.erase key⟩

/-- The second half of `_insert_chunk`, where `state` is the table's entry for `key`. -/
def storeChunk (lim : ReassemblyLimits) (r : FragmentReassembler) (key : AssemblyKey)
    (state : AssemblyState) (index : Nat) (chunkData : Bytes) : Reassembled × FragmentReassembler :=
  if lim.maxReassembledBytes < state.totalBytes + chunkData.length then
    (.error (.fragmentLimitExceeded
      s!"Reassembled size exceeds limit {lim.maxReassembledBytes}"), r.drop key)
  else
    let stored := state.withChunk index chunkData
    if stored.chunks.size = stored.total ∧ stored.allPresent then
      (.ok (some stored.joinChunks), r.drop key)
    else (.ok none, ⟨r.assemblies.set key stored⟩)

/-- Put a new assembly into the table, evicting the first one when the table is full. -/
def makeRoom (lim : ReassemblyLimits) (r : FragmentReassembler) (key : AssemblyKey)
    (state : AssemblyState) : FragmentReassembler :=
  ⟨(if lim.maxActiveAssemblies ≤ r.assemblies.size then r.assemblies.popFirst
    else r.assemblies).set key state⟩

/-- The checks `_insert_chunk` makes before it looks into the table. -/
def refusal (lim : ReassemblyLimits) (fields : FragmentFields) : Option ProtocolError :=
  if fields.total = 0 then
    some (.invalidFragment s!"total must be > 0, got {fields.total}")
  else if ¬ fields.index < fields.total then
    some (.invalidFragment s!"index out of bounds: index={fields.index}, total={fields.total}")
  else if lim.maxFragmentsPerAssembly < fields.total then
    some (.fragmentLimitExceeded
      s!"Total {fields.total} exceeds maximum {lim.maxFragmentsPerAssembly}")
  else none

/-- The checks of a fragment against the assembly it belongs to. -/
def inconsistency (state : AssemblyState) (fields : FragmentFields) : Option ProtocolError :=
  if state.total ≠ fields.total then
    some (.invalidFragment (s!"Inconsistent fragment total: expected {state.total}, " ++
      s!"got {fields.total}"))
  else if state.originalMessageType ≠ fields.originalType then
    some (.invalidFragment (s!"Inconsistent original_message_type: " ++
      s!"expected {state.originalMessageType}, got {fields.originalType}"))
  else
    match state.chunks.get? fields.index with
    | some chunk =>
      if chunk = fields.data then none
      else some (.invalidFragment
        s!"Conflicting chunk data received for index {fields.index}")
    | none => none

def insertChunk (lim : ReassemblyLimits) (now : Seconds) (senderId : Bytes)
    (fields : FragmentFields) (r : FragmentReassembler) : Reassembled × FragmentReassembler :=
  match refusal lim fields with
  | some e => (.error e, r)
  | none =>
    let key := (senderId, fields.fragmentId)
    match r.assemblies.get? key with
    | some state =>
      let r : FragmentReassembler := ⟨r.assemblies.moveToEnd key⟩
      match inconsistency state fields with
      | some e => (.error e, r.drop key)
      | none =>
        if state.chunks.contains fields.index then (.ok none, r)
        else storeChunk lim r key state fields.index fields.data
    | none =>
      let state := AssemblyState.opened key fields.total fields.originalType now
      storeChunk lim (r.makeRoom lim key state) key state fields.index fields.data

def addFragment (lim : ReassemblyLimits) (now : Seconds) (senderId payload : Bytes)
    (r : FragmentReassembler) : Reassembled × FragmentReassembler :=
  match parseFragmentPayload payload with
  | .error e => (.error e, r)
  | .ok fields => insertChunk lim now senderId fields r

def isFragmentType : MessageType → Bool
  | .fragmentStart | .fragmentContinue | .fragmentEnd => true
  | _ => false

/-- `name` of an enumeration member that a fragment packet can have. -/
def fragmentTypeName : MessageType → String
  | .fragmentStart => "FragmentStart"
  | .fragmentContinue => "FragmentContinue"
  | _ => "FragmentEnd"

/-- The position of a fragment must fit the type of the packet that carries it. -/
def checkPosition (messageType : MessageType) (fields : FragmentFields) :
    Except ProtocolError Unit :=
  if fields.index = 0 ∧ messageType ≠ .fragmentStart then
    .error (.invalidFragment
      s!"Index 0 fragment must be FragmentStart, got {fragmentTypeName messageType}")
  else if fields.index = fields.total - 1 ∧ messageType ≠ .fragmentEnd then
    .error (.invalidFragment (s!"Final fragment (index {fields.index}) must be FragmentEnd, " ++
      s!"got {fragmentTypeName messageType}"))
  else if 0 < fields.index ∧ fields.index < fields.total - 1 ∧
      messageType ≠ .fragmentContinue then
    .error (.invalidFragment (s!"Intermediate fragment (index {fields.index}) must be " ++
      s!"FragmentContinue, got {fragmentTypeName messageType}"))
  else .ok ()

/-- What a fragment packet carries, or why it is refused. -/
def readFragmentPacket (packet : BitchatPacket) : Except ProtocolError FragmentFields :=
  if ¬ isFragmentType packet.messageType then
    .error (.invalidFragment
      s!"Packet message type {packet.messageType.code} is not a fragment type")
  else
    match parseFragmentPayload packet.payload with
    | .error e => .error e
    | .ok fields =>
      match checkPosition packet.messageType fields with
      | .error e => .error e
      | .ok () => .ok fields

def addFragmentPacket (lim : ReassemblyLimits) (now : Seconds) (packet : BitchatPacket)
    (r : FragmentReassembler) : Reassembled × FragmentReassembler :=
  match readFragmentPacket packet with
  | .error e => (.error e, r)
  | .ok fields => insertChunk lim now packet.senderId fields r

/-- The calls that change the table, each at a reading of the clock. -/
inductive Call where
  | addFragment (now : Seconds) (senderId payload : Bytes)
  | addFragmentPacket (now : Seconds) (packet : BitchatPacket)
  | pruneStale (now maxAgeSeconds : Seconds)
  | clear

/-- What the call returned, where it returns bytes, and the table it leaves. -/
def perform (lim : ReassemblyLimits) (r : FragmentReassembler) :
    Call → Reassembled × FragmentReassembler
  | .addFragment now senderId payload => r.addFragment lim now senderId payload
  | .addFragmentPacket now packet => r.addFragmentPacket lim now packet
  | .pruneStale now maxAge => (.ok none, r.pruneStale now maxAge)
  | .clear => (.ok none, r.clear)

/-- A call together with its result. -/
def Step (lim : ReassemblyLimits) (r : FragmentReassembler) (label : Call × Reassembled)
    (t : FragmentReassembler) : Prop := r.perform lim label.1 = (label.2, t)

end FragmentReassembler
end Bitchat.Protocol
