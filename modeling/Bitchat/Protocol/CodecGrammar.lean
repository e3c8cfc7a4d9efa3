import Bitchat.Protocol.CodecRoundTrip

/-! What the decoder accepts: exactly the wire form of a version 1 packet with padding
that counts itself. The decoder's parts are inverted one by one. -/
namespace Bitchat.Protocol
open Bytes

/-- `PacketDecodingError` and its subclasses. -/
def ProtocolError.IsPacketDecoding : ProtocolError → Prop
  | packetDecoding _ | unsupportedVersion _ | unknownMessageType _ => True
  | _ => False

section Checks
variable {ε α : Type} {p : Prop} [Decidable p] {e d : ε} {rest : ¬ p → Except ε α} {a : α}

/-- A check passes, and the checks after it. -/
theorem check_eq_ok : (if h : p then .error e else rest h) = .ok a ↔ ∃ h, rest h = .ok a := by
  split
  next h => simp [h]
  next h => simp [h]

theorem check_eq_error :
    (if h : p then .error e else rest h) = .error d ↔ (p ∧ e = d) ∨ ∃ h, rest h = .error d := by
  split
  next h => simp [h]
  next h => simp [h]

end Checks

section Constructor
variable {version ttl timestamp flags : Int} {messageType : MessageType} {senderId payload : Bytes}
  {recipientId signature : Option Bytes}

theorem make_eq_ok {p : BitchatPacket} (made : BitchatPacket.make version messageType ttl timestamp
    flags senderId recipientId payload signature = .ok p) :
    p.version = version.toNat ∧ p.messageType = messageType ∧ p.ttl = ttl.toNat ∧
    p.timestamp = timestamp.toNat ∧ p.flags = flags.toNat ∧ p.senderId = senderId ∧
    p.recipientId = recipientId ∧ p.payload = payload ∧ p.signature = signature := by
  unfold BitchatPacket.make at made
  iterate 10 obtain ⟨_, made⟩ := check_eq_ok.mp made
  cases made
  exact ⟨rfl, rfl, rfl, rfl, rfl, rfl, rfl, rfl, rfl⟩

theorem make_eq_error {e : ProtocolError} (raised : BitchatPacket.make version messageType ttl
    timestamp flags senderId recipientId payload signature = .error e) :
    ∃ message, e = .invalidPacket message := by
  unfold BitchatPacket.make at raised
  iterate 10
    rcases check_eq_error.mp raised with ⟨_, rfl⟩ | ⟨_, raised⟩
    · exact ⟨_, rfl⟩
  cases raised

end Constructor

/-- The padding is stripped exactly when it counts itself. -/
theorem stripPadding_eq_ok {data unpadded : Bytes} {expected : Nat} :
    stripPadding data expected = .ok unpadded ↔
      unpadded.length = expected ∧ ∃ pad, IsPadding pad ∧ data = unpadded ++ pad := by
  constructor
  · intro stripped
    unfold stripPadding at stripped
    obtain ⟨long, stripped⟩ := check_eq_ok.mp stripped
    split at stripped
    next exact' =>
      cases stripped
      exact ⟨exact', [], Or.inl rfl, by simp⟩
    next more =>
      obtain ⟨counts, stripped⟩ := check_eq_ok.mp stripped
      cases stripped
      simp only [not_or, not_lt, not_not] at counts
      have width : (data.take expected).length = expected := by
        rw [List.length_take]
        omega
      refine ⟨width, data.drop expected, Or.inr ?_, (List.take_append_drop ..).symm⟩
      have carried : data.drop expected ≠ [] := by
        intro none
        have := congrArg List.length none
        simp only [List.length_drop, List.length_nil] at this
        omega
      refine ⟨_, _, (List.dropLast_append_getLast carried).symm, ?_⟩
      rw [List.getLast_drop, List.length_drop, ← counts.2.1, List.getLast?_eq_getLast_of_ne_nil]
      rfl
  · rintro ⟨rfl, pad, padding, rfl⟩
    exact stripPadding_append padding

theorem stripPadding_eq_error {data : Bytes} {expected : Nat} {e : ProtocolError}
    (raised : stripPadding data expected = .error e) : e.IsPacketDecoding := by
  unfold stripPadding at raised
  rcases check_eq_error.mp raised with ⟨_, rfl⟩ | ⟨_, raised⟩
  · trivial
  · split at raised
    · cases raised
    · rcases check_eq_error.mp raised with ⟨_, rfl⟩ | ⟨_, raised⟩
      · trivial
      · cases raised

section Fields
variable {version ttl timestamp flags payloadLen : Nat} {messageType : MessageType} {unpadded : Bytes}

theorem extractFields_eq_error {e : ProtocolError} (raised : extractFields version messageType ttl
    timestamp flags payloadLen unpadded = .error e) : e.IsPacketDecoding := by
  simp only [extractFields] at raised
  generalize made : BitchatPacket.make _ _ _ _ _ _ _ _ _ = result at raised
  cases result with
  | ok packet => cases raised
  | error d =>
    obtain ⟨message, rfl⟩ := make_eq_error made
    cases raised
    trivial

/-- What is read comes from the constructor, on the parts behind the header. -/
theorem extractFields_make {p : BitchatPacket}
    (read : extractFields version messageType ttl timestamp flags payloadLen unpadded = .ok p) :
    let senderEnd := fixedHeaderSize + senderIdSize
    let recipientEnd := senderEnd + if hasFlag flags flagHasRecipient then recipientIdSize else 0
    let payloadEnd := recipientEnd + payloadLen
    BitchatPacket.make version messageType ttl timestamp flags (slice unpadded fixedHeaderSize senderEnd)
      (if hasFlag flags flagHasRecipient then some (slice unpadded senderEnd recipientEnd) else none)
      (slice unpadded recipientEnd payloadEnd)
      (if hasFlag flags flagHasSignature
        then some (slice unpadded payloadEnd (payloadEnd + signatureSize)) else none) = .ok p := by
  simp only [extractFields] at read
  simp only
  generalize made : BitchatPacket.make _ _ _ _ _ _ _ _ _ = result at read
  cases result with
  | error d =>
    obtain ⟨message, rfl⟩ := make_eq_error made
    cases read
  | ok packet =>
    cases read
    rfl

/-- The fields are those of the arguments, and together they are the bytes behind the header. -/
theorem extractFields_eq_ok {p : BitchatPacket}
    (size : unpadded.length = expectedUnpaddedSize flags payloadLen)
    (read : extractFields version messageType ttl timestamp flags payloadLen unpadded = .ok p) :
    headerFields p = [(1, version), (1, messageType.code), (1, ttl), (8, timestamp), (1, flags),
      (2, payloadLen)] ∧ wireBody p = unpadded.drop fixedHeaderSize := by
  obtain ⟨version', type', ttl', timestamp', flags', sender, recipient, payload, signature⟩ :=
    make_eq_ok (extractFields_make read)
  simp only [Int.toNat_natCast] at version' ttl' timestamp' flags'
  simp only [expectedUnpaddedSize] at size
  have payloadSize : p.payload.length = payloadLen := by
    rw [payload, slice_length]
    omega
  refine ⟨by simp only [headerFields, version', type', ttl', timestamp', flags', payloadSize], ?_⟩
  -- the parts are adjacent, and an absent one is empty
  have recipientPart : p.recipientId.getD [] = slice unpadded (fixedHeaderSize + senderIdSize)
      (fixedHeaderSize + senderIdSize +
        if hasFlag flags flagHasRecipient then recipientIdSize else 0) := by
    rw [recipient]
    split
    · rfl
    · simp [slice]
  have signaturePart : p.signature.getD [] = slice unpadded
      (fixedHeaderSize + senderIdSize +
        (if hasFlag flags flagHasRecipient then recipientIdSize else 0) + payloadLen)
      (fixedHeaderSize + senderIdSize +
        (if hasFlag flags flagHasRecipient then recipientIdSize else 0) + payloadLen +
        if hasFlag flags flagHasSignature then signatureSize else 0) := by
    rw [signature]
    split
    · rfl
    · simp [slice]
  rw [wireBody, sender, recipientPart, payload, signaturePart, slice_slice _ (by omega) (by omega),
    slice_slice _ (by omega) (by omega), slice_slice _ (by omega) (by omega), slice]
  apply List.take_of_length_le
  rw [List.length_drop]
  omega

/-- The bytes behind a header that fits its fields always make a packet. -/
theorem extractFields_total (versionFits : version ≤ 255) (ttlFits : ttl ≤ 255)
    (timestampFits : timestamp ≤ 0xFFFFFFFFFFFFFFFF) (flagsFit : flags ≤ 255) (payloadFits : payloadLen ≤ 65535)
    (messageType : MessageType) (size : unpadded.length = expectedUnpaddedSize flags payloadLen) :
    ∃ p, extractFields version messageType ttl timestamp flags payloadLen unpadded = .ok p := by
  rw [expectedUnpaddedSize] at size
  let senderEnd := fixedHeaderSize + senderIdSize
  let recipientEnd := senderEnd + if hasFlag flags flagHasRecipient then recipientIdSize else 0
  let payloadEnd := recipientEnd + payloadLen
  let p : BitchatPacket := {
    version, messageType, ttl, timestamp, flags
    senderId := slice unpadded fixedHeaderSize senderEnd
    recipientId := if hasFlag flags flagHasRecipient then some (slice unpadded senderEnd recipientEnd) else none
    payload := slice unpadded recipientEnd payloadEnd
    signature := if hasFlag flags flagHasSignature
      then some (slice unpadded payloadEnd (payloadEnd + signatureSize)) else none
    version_le := versionFits
    ttl_le := ttlFits
    timestamp_le := timestampFits
    flags_le := flagsFit
    senderId_size := by
      rw [slice_length]
      omega
    recipientId_size := by
      intro id present
      split at present
      · next flagged =>
        obtain rfl := Option.some.inj present
        simp only [slice_length, recipientEnd, if_pos flagged]
        rw [if_pos flagged] at size
        omega
      · cases present
    recipientId_flag := by cases hasFlag flags flagHasRecipient <;> rfl
    payload_size := by
      rw [slice_length]
      omega
    signature_size := by
      intro s present
      split at present
      · next flagged =>
        obtain rfl := Option.some.inj present
        rw [slice_length]
        rw [if_pos flagged] at size
        omega
      · cases present
    signature_flag := by cases hasFlag flags flagHasSignature <;> rfl }
  refine ⟨p, ?_⟩
  simp only [extractFields]
  generalize made : BitchatPacket.make _ _ _ _ _ _ _ _ _ = result
  obtain rfl : result = .ok p := made.symm.trans p.make_fields
  rfl

end Fields

/-- The six fields of the header of a string that has one. -/
theorem header_fields (header : Bytes) : ∃ version code ttl timestamp flags payloadLen,
    unpackBE [1, 1, 1, 8, 1, 2] header = [version, code, ttl, timestamp, flags, payloadLen] :=
  ⟨_, _, _, _, _, _, rfl⟩

theorem decodePacket_eq_error {data : Bytes} {e : ProtocolError}
    (raised : decodePacket data = .error e) : e.IsPacketDecoding := by
  obtain ⟨version, code, ttl, timestamp, flags, payloadLen, read⟩ :=
    header_fields (data.take fixedHeaderSize)
  simp only [decodePacket, read] at raised
  rcases check_eq_error.mp raised with ⟨_, rfl⟩ | ⟨_, raised⟩
  · trivial
  · rcases check_eq_error.mp raised with ⟨_, rfl⟩ | ⟨_, raised⟩
    · trivial
    · cases known : MessageType.ofCode code with
      | none =>
        simp only [known] at raised
        cases raised
        trivial
      | some messageType =>
        simp only [known] at raised
        cases stripped : stripPadding data (expectedUnpaddedSize flags payloadLen) with
        | error d =>
          simp only [stripped] at raised
          cases raised
          exact stripPadding_eq_error stripped
        | ok unpadded =>
          simp only [stripped] at raised
          exact extractFields_eq_error raised

/-- What is accepted is the wire form of the packet that is returned, with padding. -/
theorem wire_of_decodePacket {data : Bytes} {p : BitchatPacket} (decoded : decodePacket data = .ok p) :
    p.version = currentProtocolVersion ∧
      ∃ pad, IsPadding pad ∧ data = wireHeader p ++ wireBody p ++ pad := by
  obtain ⟨version, code, ttl, timestamp, flags, payloadLen, read⟩ :=
    header_fields (data.take fixedHeaderSize)
  simp only [decodePacket, read] at decoded
  obtain ⟨_, decoded⟩ := check_eq_ok.mp decoded
  obtain ⟨current, decoded⟩ := check_eq_ok.mp decoded
  cases known : MessageType.ofCode code with
  | none =>
    simp only [known] at decoded
    cases decoded
  | some messageType =>
    simp only [known] at decoded
    cases stripped : stripPadding data (expectedUnpaddedSize flags payloadLen) with
    | error d =>
      simp only [stripped] at decoded
      cases decoded
    | ok unpadded =>
      simp only [stripped] at decoded
      obtain ⟨size, pad, padding, whole⟩ := stripPadding_eq_ok.mp stripped
      obtain ⟨fields, body⟩ := extractFields_eq_ok size decoded
      obtain rfl := MessageType.code_ofCode known
      have room : fixedHeaderSize ≤ unpadded.length := by
        rw [size, expectedUnpaddedSize]
        omega
      have first : data.take fixedHeaderSize = unpadded.take fixedHeaderSize := by
        rw [whole, List.take_append_of_le_length room]
      have header : wireHeader p = unpadded.take fixedHeaderSize := by
        rw [wireHeader, fields]
        apply pack_unpackBE
        · rw [List.length_take, Nat.min_eq_left room]
          rfl
        · rw [← first]
          exact read
      refine ⟨?_, pad, padding, by rw [header, body, List.take_append_drop, whole]⟩
      have versions := congrArg (List.map Prod.snd) fields
      simp only [headerFields, List.map_cons, List.cons.injEq] at versions
      exact versions.1.trans (not_not.mp current)

/-- The decoder raises decoding errors only, and returns a packet exactly on the version 1
wire form of that packet followed by padding. -/
theorem decoder_accepts_grammar (filler : Nat → UInt8) (data : Bytes) :
    (∀ e, decodePacket data = .error e → e.IsPacketDecoding) ∧
    ∀ p, decodePacket data = .ok p ↔ p.version = currentProtocolVersion ∧
      ∃ wire pad, encodePacket filler p false = .ok wire ∧ data = wire ++ pad ∧
        (pad = [] ∨ (1 ≤ pad.length ∧ pad.length ≤ 255 ∧
          ∃ last, pad.getLast? = some last ∧ last.toNat = pad.length)) := by
  refine ⟨fun e => decodePacket_eq_error, fun p => ⟨fun decoded => ?_, ?_⟩⟩
  · obtain ⟨current, pad, padding, rfl⟩ := wire_of_decodePacket decoded
    refine ⟨current, _, pad, encodePacket_eq p filler false, rfl, ?_⟩
    have bound := padding.length_le
    rcases padding with rfl | ⟨front, last, rfl, counts⟩
    · exact Or.inl rfl
    · exact Or.inr ⟨by simp, bound, last, by simp, counts⟩
  · rintro ⟨current, wire, pad, wrote, rfl, padding⟩
    rw [encodePacket_eq] at wrote
    cases wrote
    apply decodePacket_wire p current
    rcases padding with rfl | ⟨_, _, last, ends, counts⟩
    · exact Or.inl rfl
    · obtain ⟨front, rfl⟩ := List.getLast?_eq_some_iff.mp ends
      exact Or.inr ⟨front, last, rfl, counts⟩

end Bitchat.Protocol
