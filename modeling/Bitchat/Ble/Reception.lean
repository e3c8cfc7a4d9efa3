import Bitchat.Protocol.CodecGrammar
import Bitchat.Protocol.FragmentDelivery
import Bitchat.Protocol.ReassemblyProvenance

/-! The receive paths of the Bluetooth side. Each decodes the bytes of one notification or write, puts
fragments together and hands complete packets on. They differ in the exceptions they catch around the
reassembler. -/
namespace Bitchat.Protocol

/-- `except PacketDecodingError` takes this exception. -/
def ProtocolError.isPacketDecodingError : ProtocolError → Bool
  | packetDecoding _ | unsupportedVersion _ | unknownMessageType _ => true
  | _ => false

/-- `except FragmentationError` takes it. -/
def ProtocolError.isFragmentationError : ProtocolError → Bool
  | invalidFragment _ | fragmentPayload _ | fragmentLimitExceeded _ => true
  | _ => false

theorem ProtocolError.IsPacketDecoding.caught {e : ProtocolError} (class_ : e.IsPacketDecoding) :
    e.isPacketDecodingError = true := by
  cases e <;> first | rfl | exact class_.elim

end Bitchat.Protocol

namespace Bitchat.Ble
open Protocol FragmentReassembler

/-- The packet handed on, `none` where the bytes were kept or discarded, or the exception that
escapes. -/
abbrev Received := Except ProtocolError (Option BitchatPacket)

/-- `except PacketDecodingError` around a decoding whose packet is handed on. -/
def handOn (decoded : Except ProtocolError BitchatPacket) : Received :=
  match decoded with
  | .ok packet => .ok (some packet)
  | .error e => if e.isPacketDecodingError then .ok none else .error e

def receive (caught : ProtocolError → Bool) (lim : ReassemblyLimits) (now : Seconds)
    (rawBytes : Bytes) (r : FragmentReassembler) : Received × FragmentReassembler :=
  match decodePacket rawBytes with
  | .error e => (handOn (.error e), r)
  | .ok packet =>
    if isFragmentType packet.messageType then
      match r.addFragmentPacket lim now packet with
      | (.error e, r) => (if caught e then .ok none else .error e, r)
      | (.ok none, r) => (.ok none, r)
      | (.ok (some wire), r) => (handOn (decodePacket wire), r)
    else (.ok (some packet), r)

/-- `BLETransport._process_raw_bytes`. -/
def processRawBytes : ReassemblyLimits → Seconds → Bytes → FragmentReassembler →
    Received × FragmentReassembler :=
  receive fun e => e.isFragmentationError || e.isPacketDecodingError

/-- `BluetoothTransport._handle_server_data`. -/
def handleServerData : ReassemblyLimits → Seconds → Bytes → FragmentReassembler →
    Received × FragmentReassembler :=
  receive fun e => e.isFragmentationError || e.isPacketDecodingError

/-- `SessionCoordinator._handle_server_data_received`, up to the handling of the packet. -/
def handleServerDataReceived : ReassemblyLimits → Seconds → Bytes → FragmentReassembler →
    Received × FragmentReassembler :=
  receive ProtocolError.isFragmentationError

section Outcome
variable {lim : ReassemblyLimits} {now : Seconds} {rawBytes : Bytes} {r t : FragmentReassembler}
  {caught : ProtocolError → Bool} {p : BitchatPacket} {fields : FragmentFields} {e : ProtocolError}

theorem handOn_decode (data : Bytes) : ∃ found, handOn (decodePacket data) = .ok found ∧
    ∀ p, found = some p ↔ decodePacket data = .ok p := by
  cases decoded : decodePacket data with
  | ok p => exact ⟨some p, rfl, by simp⟩
  | error e =>
    refine ⟨none, ?_, by simp⟩
    simp only [handOn, (decodePacket_eq_error decoded).caught, if_true]

theorem parseFragmentPayload_error {payload : Bytes} (raised : parseFragmentPayload payload = .error e) :
    e.isFragmentationError = true := by
  unfold parseFragmentPayload at raised
  repeat' split at raised
  all_goals cases raised
  all_goals rfl

theorem checkPosition_error {messageType : MessageType}
    (raised : checkPosition messageType fields = .error e) : e.isFragmentationError = true := by
  unfold checkPosition at raised
  repeat' split at raised
  all_goals cases raised
  all_goals rfl

theorem readFragmentPacket_error (raised : readFragmentPacket p = .error e) :
    e.isFragmentationError = true := by
  unfold readFragmentPacket at raised
  split at raised
  · cases raised
    rfl
  · cases parsed : parseFragmentPayload p.payload with
    | error d =>
      rw [parsed] at raised
      cases raised
      exact parseFragmentPayload_error parsed
    | ok fields =>
      simp only [parsed] at raised
      cases placed : checkPosition p.messageType fields with
      | error d =>
        rw [placed] at raised
        cases raised
        exact checkPosition_error placed
      | ok u =>
        rw [placed] at raised
        cases raised

theorem refusal_error (refused : refusal lim fields = some e) : e.isFragmentationError = true := by
  unfold refusal at refused
  repeat' split at refused
  all_goals cases refused
  all_goals rfl

theorem inconsistency_error {state : AssemblyState} (refused : inconsistency state fields = some e) :
    e.isFragmentationError = true := by
  unfold inconsistency at refused
  repeat' split at refused
  all_goals cases refused
  all_goals rfl

theorem collect_error {state : AssemblyState} {index : Nat} {chunk : Bytes}
    (raised : (collect lim state index chunk).1 = .error e) : e.isFragmentationError = true := by
  unfold collect at raised
  by_cases large : lim.maxReassembledBytes < state.totalBytes + chunk.length
  · rw [if_pos large] at raised
    cases raised
    rfl
  · rw [if_neg large] at raised
    dsimp only at raised
    split at raised <;> cases raised

theorem assemble_error {key : AssemblyKey} {held : Option AssemblyState}
    (raised : (assemble lim now key fields held).1 = .error e) : e.isFragmentationError = true := by
  unfold assemble at raised
  cases refused : refusal lim fields with
  | some d =>
    rw [refused] at raised
    cases raised
    exact refusal_error refused
  | none =>
    simp only [refused] at raised
    cases held with
    | none => exact collect_error raised
    | some state =>
      simp only at raised
      cases mismatch : inconsistency state fields with
      | some d =>
        rw [mismatch] at raised
        cases raised
        exact inconsistency_error mismatch
      | none =>
        simp only [mismatch] at raised
        split at raised
        · cases raised
        · exact collect_error raised

/-- The reassembler raises nothing but fragmentation errors. -/
theorem addFragmentPacket_error (raised : (r.addFragmentPacket lim now p).1 = .error e) :
    e.isFragmentationError = true := by
  unfold addFragmentPacket at raised
  cases read : readFragmentPacket p with
  | error d =>
    rw [read] at raised
    cases raised
    exact readFragmentPacket_error read
  | ok fields =>
    simp only [read] at raised
    rw [(insertChunk_view lim r now p.senderId fields).1] at raised
    exact assemble_error raised

/-- What one call of a receive path does. -/
inductive Receives (lim : ReassemblyLimits) (now : Seconds) (rawBytes : Bytes)
    (r : FragmentReassembler) : Received → FragmentReassembler → Prop where
  | malformed {e : ProtocolError} : decodePacket rawBytes = .error e → Receives lim now rawBytes r (.ok none) r
  | whole {p : BitchatPacket} : decodePacket rawBytes = .ok p → isFragmentType p.messageType = false →
      Receives lim now rawBytes r (.ok (some p)) r
  | fragment {p : BitchatPacket} {result : Reassembled} {t : FragmentReassembler}
      {found : Option BitchatPacket} : decodePacket rawBytes = .ok p → isFragmentType p.messageType = true →
      Step lim r (.addFragmentPacket now p, result) t →
      (∀ full, found = some full ↔ ∃ wire, result = .ok (some wire) ∧ decodePacket wire = .ok full) →
      Receives lim now rawBytes r (.ok found) t

/-- A path that catches the reassembler's errors ends in one of these ways, whatever it receives. -/
theorem receive_spec (catches : ∀ e, e.isFragmentationError = true → caught e = true)
    (now : Seconds) (rawBytes : Bytes) (r : FragmentReassembler) :
    Receives lim now rawBytes r (receive caught lim now rawBytes r).1
      (receive caught lim now rawBytes r).2 := by
  unfold receive
  cases decoded : decodePacket rawBytes with
  | error e =>
    simp only [handOn, (decodePacket_eq_error decoded).caught, if_true]
    exact .malformed decoded
  | ok p =>
    simp only
    by_cases fragment : isFragmentType p.messageType = true
    · rw [if_pos fragment]
      have step : Step lim r (.addFragmentPacket now p, (r.addFragmentPacket lim now p).1)
          (r.addFragmentPacket lim now p).2 := rfl
      rcases added : r.addFragmentPacket lim now p with ⟨result, t⟩
      rw [added] at step
      cases result with
      | error e =>
        have known : caught e = true := catches e (addFragmentPacket_error (congrArg Prod.fst added))
        simp only [known, if_true]
        exact .fragment decoded fragment step (by simp)
      | ok returned =>
        cases returned with
        | none => exact .fragment decoded fragment step (by simp)
        | some wire =>
          obtain ⟨found, handed, iff⟩ := handOn_decode wire
          simp only [handed]
          exact .fragment decoded fragment step (by simpa using iff)
    · rw [if_neg fragment]
      exact .whole decoded (by simpa using fragment)

end Outcome

/-- The three receive paths. -/
inductive ReceivePath where
  | transportNotification
  | serverWrite
  | coordinatorServerWrite
deriving DecidableEq

def ReceivePath.handle : ReceivePath → ReassemblyLimits → Seconds → Bytes → FragmentReassembler →
    Received × FragmentReassembler
  | transportNotification => processRawBytes
  | serverWrite => handleServerData
  | coordinatorServerWrite => handleServerDataReceived

theorem ReceivePath.handle_spec (path : ReceivePath) (lim : ReassemblyLimits) (now : Seconds)
    (rawBytes : Bytes) (r : FragmentReassembler) :
    Receives lim now rawBytes r (path.handle lim now rawBytes r).1 (path.handle lim now rawBytes r).2 := by
  cases path with
  | transportNotification => exact receive_spec (fun e fragmentation => by simp [fragmentation]) now rawBytes r
  | serverWrite => exact receive_spec (fun e fragmentation => by simp [fragmentation]) now rawBytes r
  | coordinatorServerWrite => exact receive_spec (fun e fragmentation => fragmentation) now rawBytes r

/-- What happens to the reassembler of a path until it is cleared. -/
inductive ReceptionEvent where
  | bytes (now : Seconds) (rawBytes : Bytes)
  | pruneStale (now maxAge : Seconds)

def ReceivePath.perform (path : ReceivePath) (lim : ReassemblyLimits) (r : FragmentReassembler) :
    ReceptionEvent → Received × FragmentReassembler
  | .bytes now rawBytes => path.handle lim now rawBytes r
  | .pruneStale now maxAge => (.ok none, r.pruneStale now maxAge)

def ReceivePath.Step (path : ReceivePath) (lim : ReassemblyLimits) (r : FragmentReassembler)
    (label : ReceptionEvent × Received) (t : FragmentReassembler) : Prop :=
  path.perform lim r label.1 = (label.2, t)

abbrev ReceptionHistory := List (Taken FragmentReassembler (ReceptionEvent × Received))

/-- A notification among these brought this chunk. -/
def Brought (history : ReceptionHistory) (senderId fragmentId : Bytes) (total originalType index : Nat)
    (chunk : Bytes) : Prop :=
  ∃ e ∈ history, ∃ now rawBytes f, e.label.1 = .bytes now rawBytes ∧ decodePacket rawBytes = .ok f ∧
    f.senderId = senderId ∧ readFragmentPacket f = .ok ⟨fragmentId, index, total, originalType, chunk⟩

/-- The packet was sent whole in the last notification, or its chunks came one by one. -/
inductive PacketOrigin (earlier : ReceptionHistory)
    (e : Taken FragmentReassembler (ReceptionEvent × Received)) (p : BitchatPacket) : Prop where
  | whole {now : Seconds} {rawBytes : Bytes} : e.label.1 = .bytes now rawBytes →
      decodePacket rawBytes = .ok p → isFragmentType p.messageType = false → PacketOrigin earlier e p
  | pieces {senderId fragmentId : Bytes} {total originalType : Nat} {chunkAt : Nat → Bytes} :
      (∀ i < total, Brought (earlier ++ [e]) senderId fragmentId total originalType i (chunkAt i)) →
      (∃ i chunk, Brought [e] senderId fragmentId total originalType i chunk) →
      decodePacket ((List.range total).flatMap chunkAt) = .ok p → PacketOrigin earlier e p

section Runs
variable {path : ReceivePath} {lim : ReassemblyLimits} {history : ReceptionHistory}
  {r : FragmentReassembler}

/-- The fragments that the calls of a reassembler got all came in notifications. -/
def Notified (history : ReceptionHistory) (calls : History) : Prop :=
  ∀ c ∈ calls, ∀ senderId fields, c.label.1.fragment = some (senderId, fields) →
    Brought history senderId fields.fragmentId fields.total fields.originalType fields.index fields.data

theorem Brought.mono {more : ReceptionHistory} {senderId fragmentId chunk : Bytes}
    {total originalType index : Nat} (brought : Brought history senderId fragmentId total originalType index chunk)
    (subset : history ⊆ more) : Brought more senderId fragmentId total originalType index chunk := by
  obtain ⟨e, member, rest⟩ := brought
  exact ⟨e, subset member, rest⟩

theorem fragment_brought {e : Taken FragmentReassembler (ReceptionEvent × Received)} {now : Seconds}
    {rawBytes senderId : Bytes} {f : BitchatPacket} {fields : FragmentFields}
    (called : e.label.1 = .bytes now rawBytes) (decoded : decodePacket rawBytes = .ok f)
    (carries : (Call.addFragmentPacket now f).fragment = some (senderId, fields)) :
    Brought [e] senderId fields.fragmentId fields.total fields.originalType fields.index fields.data := by
  simp only [Call.fragment] at carries
  cases read : readFragmentPacket f with
  | error d => simp [read] at carries
  | ok found =>
    simp only [read, Option.some.injEq, Prod.mk.injEq] at carries
    obtain ⟨rfl, rfl⟩ := carries
    exact ⟨e, List.mem_singleton_self e, now, rawBytes, f, called, decoded, rfl, read⟩

/-- Behind a run of a path stands a run of its reassembler. -/
theorem reassembler_run (run : Run (path.Step lim) new history r) :
    ∃ calls, Run (Step lim) new calls r ∧ Notified history calls := by
  induction run with
  | nil => exact ⟨[], .nil, by simp [Notified]⟩
  | @snoc history r label t _ step ih =>
    obtain ⟨calls, run, notified⟩ := ih
    obtain ⟨event, received⟩ := label
    have widened : Notified (history ++ [⟨r, (event, received), t⟩]) calls :=
      fun c member senderId fields carries =>
        (notified c member senderId fields carries).mono (List.subset_append_left _ _)
    cases event with
    | pruneStale now maxAge =>
      obtain ⟨rfl, rfl⟩ := Prod.mk.inj step
      have pruned : Step lim r (.pruneStale now maxAge, .ok none) (r.pruneStale now maxAge) := rfl
      refine ⟨_, run.snoc pruned, fun c member => ?_⟩
      rcases List.mem_append.mp member with member | member
      · exact widened c member
      · simp [List.mem_singleton.mp member, Call.fragment]
    | bytes now rawBytes =>
      have handled := path.handle_spec lim now rawBytes r
      rw [show path.handle lim now rawBytes r = (received, t) from step] at handled
      generalize called : ReceptionEvent.bytes now rawBytes = event at widened ⊢
      simp only at handled
      cases handled with
      | malformed _ => exact ⟨calls, run, widened⟩
      | whole _ _ => exact ⟨calls, run, widened⟩
      | fragment decoded _ taken _ =>
        refine ⟨_, run.snoc taken, fun c member => ?_⟩
        rcases List.mem_append.mp member with member | member
        · exact widened c member
        · rw [List.mem_singleton.mp member]
          intro senderId fields carries
          exact (fragment_brought called.symm decoded carries).mono (List.subset_append_right _ _)

/-- No bytes make a path raise, its table stays bounded, and every packet that it hands on was on the
wire, whole or as all the chunks of one fragmented packet. -/
theorem reception_sound (run : Run (path.Step lim) new history r) :
    (∀ e ∈ history, ∃ found, e.label.2 = .ok found) ∧ Bounded lim r ∧
      ∀ earlier e later p, history = earlier ++ e :: later → e.label.2 = .ok (some p) →
        PacketOrigin earlier e p := by
  refine ⟨fun e member => ?_, ?_, ?_⟩
  · have step := run.stepped member
    obtain ⟨before, ⟨event, received⟩, after⟩ := e
    cases event with
    | pruneStale now maxAge => exact ⟨none, (congrArg Prod.fst step).symm⟩
    | bytes now rawBytes =>
      have handled := path.handle_spec lim now rawBytes before
      rw [show path.handle lim now rawBytes before = (received, after) from step] at handled
      cases handled <;> exact ⟨_, rfl⟩
  · obtain ⟨calls, reached, _⟩ := reassembler_run run
    exact run_bounded reached
  · rintro earlier e later p rfl dispatched
    obtain ⟨before, step⟩ := run.split
    obtain ⟨calls, reached, notified⟩ := reassembler_run before
    obtain ⟨s, ⟨event, received⟩, t⟩ := e
    simp only at dispatched before reached
    subst dispatched
    cases event with
    | pruneStale now maxAge => cases (congrArg Prod.fst step)
    | bytes now rawBytes =>
      have handled := path.handle_spec lim now rawBytes s
      rw [show path.handle lim now rawBytes s = (.ok (some p), t) from step] at handled
      simp only at handled
      generalize found : some p = dispatched at handled
      cases handled with
      | malformed _ => cases found
      | whole decoded plain => cases found; exact .whole rfl decoded plain
      | @fragment f _ _ _ decoded _ taken handedOn =>
        obtain ⟨wire, rfl, full⟩ := (handedOn p).mp found.symm
        let last : Taken FragmentReassembler (Call × Reassembled) := ⟨s, (.addFragmentPacket now f, .ok (some wire)), t⟩
        obtain ⟨key, total, originalType, chunkAt, _, since, split, _, ⟨index, chunk, own⟩, all, rfl⟩ :=
          (result_origin (e := last) reached taken rfl).chunks
        refine .pieces (fun i below => ?_) ⟨index, chunk, fragment_brought rfl decoded own⟩ full
        obtain ⟨c, member, carries⟩ := all i below
        have seen : c ∈ calls ++ [last] := by
          rw [split]
          exact List.mem_append_right _ member
        rcases List.mem_append.mp seen with before | here
        · exact (notified c before _ _ carries).mono (List.subset_append_left _ _)
        · rw [List.mem_singleton.mp here] at carries
          exact (fragment_brought rfl decoded carries).mono (List.subset_append_right _ _)

end Runs

/-- The fragments of a long message as they are written. -/
def longWires : List Bytes := longFragments.map fun f => wireHeader f ++ wireBody f

/-- A write that does not decode and a prune come between the fragments. -/
def longEvents : List ReceptionEvent :=
  (longWires.take 2).map (.bytes 0) ++ [.bytes 1 [], .pruneStale 2 30] ++ (longWires.drop 2).map (.bytes 3)

def longReception : ReceptionHistory :=
  Run.answered (fun event r => ReceivePath.serverWrite.perform .standard r event) Prod.mk new longEvents

theorem longReception_run : Run (ReceivePath.serverWrite.Step .standard) new longReception
    (longEvents.foldl (fun r event => (ReceivePath.serverWrite.perform .standard r event).2) new) :=
  Run.of_answered (fun event r => ReceivePath.serverWrite.perform .standard r event) Prod.mk fun _ _ _ => rfl

/-- The last fragment hands on the message, which was on the wire in pieces only. -/
theorem reception_sound_long :
    (longReception.map fun e => e.label.2) =
      List.replicate 6 (.ok none) ++ [.ok (some longMessage)] ∧
    (∀ rawBytes ∈ longWires, ∃ f, decodePacket rawBytes = .ok f ∧ isFragmentType f.messageType = true) ∧
    ∃ earlier e, longReception = earlier ++ [e] ∧ PacketOrigin earlier e longMessage := by
  have answers : (longReception.map fun e => e.label.2) =
      List.replicate 6 (.ok none) ++ [.ok (some longMessage)] := by decide +kernel
  refine ⟨answers, fun rawBytes listed => ?_, ?_⟩
  · obtain ⟨f, member, rfl⟩ := List.mem_map.mp listed
    have kinds : ∀ f ∈ longFragments, f.version = currentProtocolVersion ∧
        isFragmentType f.messageType = true := by decide +kernel
    have decoded := decodePacket_wire f (kinds f member).1 (Or.inl rfl : IsPadding [])
    rw [List.append_nil] at decoded
    exact ⟨f, decoded, (kinds f member).2⟩
  · have last : longReception.getLast?.map (fun e => e.label.2) = some (.ok (some longMessage)) := by
      rw [← List.getLast?_map, answers]
      rfl
    obtain ⟨e, found, told⟩ := Option.map_eq_some_iff.mp last
    obtain ⟨earlier, whole⟩ := List.getLast?_eq_some_iff.mp found
    exact ⟨earlier, e, whole, (reception_sound longReception_run).2.2 earlier e [] longMessage whole told⟩

end Bitchat.Ble
