import Bitchat.Ble.Reception
import Bitchat.Protocol.FragmentDelivery

/-! A BLE link in one direction. The fragments of a long packet are paced, so several calls that send can
have writes left at a time. The receiver queues what arrives and a worker takes it from there. -/
namespace Bitchat.Ble
open Protocol FragmentReassembler

/-- The packet that the callback is given. -/
def handed : Received → List BitchatPacket
  | .ok (some packet) => [packet]
  | _ => []

@[simp] theorem handed_none : handed (.ok none) = [] := rfl

@[simp] theorem handed_some (packet : BitchatPacket) : handed (.ok (some packet)) = [packet] := rfl

/-- The receiving half, and the packets that its callback was given. -/
structure BLETransport where
  isRunning : Bool := false
  queueMaxSize : Nat := 100
  receiveQueue : List Bytes := []
  reassembler : FragmentReassembler := .new
  dispatched : List BitchatPacket := []

namespace BLETransport

def queueFull (t : BLETransport) : Bool :=
  0 < t.queueMaxSize && t.queueMaxSize ≤ t.receiveQueue.length

def handleIncomingNotification (rawBytes : Bytes) (t : BLETransport) : BLETransport :=
  if t.queueFull then t else { t with receiveQueue := t.receiveQueue ++ [rawBytes] }

/-- One round of `_receive_worker`. An exception would be logged there. -/
def receiveWorker (lim : ReassemblyLimits) (now : Seconds) (t : BLETransport) : BLETransport :=
  match t.receiveQueue with
  | [] => t
  | rawBytes :: rest =>
    let (received, r) := processRawBytes lim now rawBytes t.reassembler
    { t with receiveQueue := rest, reassembler := r, dispatched := t.dispatched ++ handed received }

def stop (t : BLETransport) : BLETransport :=
  { t with isRunning := false, receiveQueue := [], reassembler := t.reassembler.clear }

/-- `connects` says whether `connection.connect()` returns. -/
def start (connects : Bool) (t : BLETransport) : BLETransport :=
  if t.isRunning then t
  else if connects then { t with isRunning := true }
  else { t with isRunning := true }.stop

section Worker
variable (lim : ReassemblyLimits) (now : Seconds) (t : BLETransport)

@[simp] theorem receiveWorker_queue : (t.receiveWorker lim now).receiveQueue = t.receiveQueue.tail := by
  unfold receiveWorker
  split <;> simp [*]

@[simp] theorem receiveWorker_isRunning : (t.receiveWorker lim now).isRunning = t.isRunning := by
  unfold receiveWorker
  split <;> rfl

@[simp] theorem receiveWorker_queueMaxSize : (t.receiveWorker lim now).queueMaxSize = t.queueMaxSize := by
  unfold receiveWorker
  split <;> rfl

end Worker
end BLETransport

/-- What `BLETransport.send_packet` writes to a connection that is ready. `filler` is drawn for the padding,
and `fragmentId` and `timestamp` where the packet is fragmented. -/
def sendPacket (filler : Nat → UInt8) (senderId : Bytes) (packet : BitchatPacket) (addPadding : Bool)
    (fragmentId : Bytes) (timestamp : Int) : Except ProtocolError (List Bytes) :=
  match encodePacket filler packet addPadding with
  | .error e => .error e
  | .ok encoded =>
    if ¬ shouldFragment encoded then .ok [encoded]
    else
      match fragmentEncodedPacket encoded senderId packet.messageType.code fragmentId 7 timestamp with
      | .error e => .error e
      | .ok fragments => fragments.mapM fun f => encodePacket filler f false

/-- The notifications of `BluetoothTransport.send_to_peer` to a client of the server, and of the server's
part in `broadcast_packet`. -/
def notifyClient (filler : Nat → UInt8) (packet : BitchatPacket) (fragmentId : Bytes) (timestamp : Int) :
    Except ProtocolError (List Bytes) :=
  sendPacket filler packet.senderId packet true fragmentId timestamp

/-- A call that sends: its packet, the ids it sends under and all its writes. -/
structure Outgoing where
  packet : BitchatPacket
  senderId : Bytes
  fragmentId : Bytes
  writes : List Bytes
deriving DecidableEq

def Outgoing.key (o : Outgoing) : AssemblyKey := (o.senderId, o.fragmentId)

/-- The first `written` of the writes are made. -/
structure SendCall extends Outgoing where
  written : Nat := 0

def SendCall.finished (call : SendCall) : Bool := call.written = call.writes.length

structure Link where
  calls : List SendCall := []
  receiver : BLETransport := {}

inductive LinkEvent where
  | send (filler : Nat → UInt8) (senderId : Bytes) (packet : BitchatPacket) (addPadding : Bool)
      (fragmentId : Bytes) (timestamp : Int)
  | write (call : Nat)
  | work (now : Seconds)

/-- A call that an error or a disconnect ends simply makes no further write. -/
inductive Link.Step (lim : ReassemblyLimits) (link : Link) : LinkEvent → Link → Prop where
  | send {filler senderId packet addPadding fragmentId timestamp writes} :
      sendPacket filler senderId packet addPadding fragmentId timestamp = .ok writes →
      Step lim link (.send filler senderId packet addPadding fragmentId timestamp)
        { link with calls := link.calls ++ [{ packet, senderId, fragmentId, writes }] }
  | write {i call data} : link.calls[i]? = some call → call.writes[call.written]? = some data →
      Step lim link (.write i)
        { calls := link.calls.set i { call with written := call.written + 1 }
          receiver := link.receiver.handleIncomingNotification data }
  | work {now} : link.receiver.isRunning = true →
      Step lim link (.work now) { link with receiver := link.receiver.receiveWorker lim now }

/-- The packets of the calls that have made all their writes. -/
def Link.sent (link : Link) : List BitchatPacket :=
  (link.calls.filter SendCall.finished).map fun call => call.packet

/-- What the link relies on. A call sends a packet that is no fragment itself, under an id and a clock
reading that its fragments can carry, and draws an id that no other call has. The queue is not full when
a write arrives, and at most as many calls wait for delivery as the receiver can put together at a time. -/
def Link.Orderly (lim : ReassemblyLimits) (link : Link) : LinkEvent → Prop
  | .send _ senderId packet _ fragmentId timestamp =>
    packet.version = currentProtocolVersion ∧ isFragmentType packet.messageType = false ∧
      senderId.length = senderIdSize ∧ fragmentId.length = fragmentIdSize ∧
      (0 ≤ timestamp ∧ timestamp ≤ 0xFFFFFFFFFFFFFFFF) ∧ ∀ call ∈ link.calls, call.fragmentId ≠ fragmentId
  | .write _ => link.receiver.queueFull = false
  | .work _ => link.calls.length ≤ link.receiver.dispatched.length + lim.maxActiveAssemblies

/-- The writes are the fragments of some bytes, in order. -/
structure Outgoing.Pieces (o : Outgoing) (encoded : Bytes) : Prop where
  several : 1 < o.writes.length
  few : o.writes.length ≤ 440
  carries : ∀ i data, o.writes[i]? = some data → ∃ f, decodePacket data = .ok f ∧
    Carries o.senderId o.fragmentId o.packet.messageType.code o.writes.length i (chunkAt encoded i) f
  joined : (List.range o.writes.length).flatMap (chunkAt encoded) = encoded
  decoded : decodePacket encoded = .ok o.packet

/-- The writes as a receiver sees them: the packet whole, or in pieces. -/
inductive Outgoing.Readable (o : Outgoing) : Prop where
  | whole {encoded : Bytes} : o.writes = [encoded] → decodePacket encoded = .ok o.packet →
      isFragmentType o.packet.messageType = false → Readable o
  | pieces {encoded : Bytes} : o.Pieces encoded → Readable o

section Sending
variable {filler : Nat → UInt8} {senderId fragmentId encoded : Bytes} {packet : BitchatPacket}
  {addPadding : Bool} {timestamp : Int} (wrote : encodePacket filler packet addPadding = .ok encoded)
  (current : packet.version = currentProtocolVersion)
include wrote current

theorem decode_encoded : decodePacket encoded = .ok packet := by
  have round := decodePacket_encodePacket filler packet current addPadding
  rwa [wrote] at round

variable (sender : senderId.length = senderIdSize) (idSize : fragmentId.length = fragmentIdSize)
  (timestamp_word : 0 ≤ timestamp ∧ timestamp ≤ 0xFFFFFFFFFFFFFFFF)
include sender idSize timestamp_word

theorem sendPacket_long (long : fragmentationThreshold < encoded.length) :
    ∃ writes, sendPacket filler senderId packet addPadding fragmentId timestamp = .ok writes ∧
      Outgoing.Pieces ⟨packet, senderId, fragmentId, writes⟩ encoded := by
  have type_byte : packet.messageType.code ≤ 255 := Nat.le_of_lt_succ packet.messageType.code_lt
  have ttl_byte : (0 : Int) ≤ 7 ∧ (7 : Int) ≤ 255 := by decide
  obtain ⟨fragments, cut, few, carried, joined, _⟩ := fragmentEncodedPacket_carries
    long (encodePacket_length wrote) sender idSize type_byte ttl_byte timestamp_word
  obtain ⟨wires, all, each⟩ := mapM_ok (f := fun f => encodePacket filler f false) (l := fragments)
    fun f _ => ⟨_, encodePacket_eq f filler false⟩
  have count : fragments.length = wires.length := each.length_eq
  have several : 1 < wires.length := by
    have size : encoded.length ≤ fragments.length * fragmentChunkSize := by
      have bound := List.sum_le_card_nsmul ((List.range fragments.length).map fun i =>
        (chunkAt encoded i).length) fragmentChunkSize (by simpa using fun i _ => chunkAt_length encoded i)
      rw [← joined, List.length_flatMap]
      simpa [joined] using bound
    simp only [fragmentationThreshold, fragmentChunkSize] at long size
    omega
  refine ⟨wires, ?_, ⟨several, count ▸ few, fun i data found => ?_, count ▸ joined, decode_encoded wrote current⟩⟩
  · have fragmented : ¬ ¬ shouldFragment encoded = true := not_not.mpr (by simpa [shouldFragment] using long)
    simp only [sendPacket, wrote, if_neg fragmented, cut]
    exact all
  · obtain ⟨inside, rfl⟩ := List.getElem?_eq_some_iff.mp found
    simp only at inside
    have carries := carried i (count ▸ inside)
    obtain ⟨wire, encoded', _, back⟩ := carries.fits (chunkAt_length encoded i) filler false
    have here : encodePacket filler fragments[i] false = .ok wires[i] :=
      each.get (i := i) (count ▸ inside) inside
    obtain rfl : wire = wires[i] := Except.ok.inj (encoded'.symm.trans here)
    simp only [count] at carries
    exact ⟨_, back, carries⟩

theorem sendPacket_readable (plain : isFragmentType packet.messageType = false) {writes : List Bytes}
    (made : sendPacket filler senderId packet addPadding fragmentId timestamp = .ok writes) :
    Outgoing.Readable ⟨packet, senderId, fragmentId, writes⟩ := by
  by_cases long : fragmentationThreshold < encoded.length
  · obtain ⟨wires, sent, pieces⟩ := sendPacket_long wrote current sender idSize timestamp_word long
    obtain rfl := Except.ok.inj (sent.symm.trans made)
    exact .pieces pieces
  · have short : ¬ shouldFragment encoded = true := by simpa [shouldFragment] using long
    simp only [sendPacket, wrote, if_pos short] at made
    cases made
    exact .whole rfl (decode_encoded wrote current) plain

end Sending
end Bitchat.Ble
