import Bitchat.Protocol.Codec

/-! Encoding a version 1 packet, padded or not, and decoding the bytes gives the
packet back. The padding enters only through its last byte, which counts it. -/
namespace Bitchat.Protocol
open Bytes

section Layout
variable (p : BitchatPacket)

def wireHeader : Bytes := (headerFields p).flatMap fun f => toBE f.1 f.2

/-- The fields that follow the header. -/
def wireBody : Bytes :=
  p.senderId ++ (p.recipientId.getD [] ++ (p.payload ++ p.signature.getD []))

theorem headerFields_fit : ∀ f ∈ headerFields p, f.2 < 256 ^ f.1 := by
  have := p.version_le
  have := p.messageType.code_lt
  have := p.ttl_le
  have := p.timestamp_le
  have := p.flags_le
  have := p.payload_size
  simp only [headerFields, List.mem_cons, List.not_mem_nil, or_false]
  rintro f (rfl | rfl | rfl | rfl | rfl | rfl) <;> simp only [] <;> omega

theorem wireHeader_length : (wireHeader p).length = fixedHeaderSize := by
  simp [wireHeader, headerFields, fixedHeaderSize]

theorem recipient_length : (p.recipientId.getD []).length =
    if hasFlag p.flags flagHasRecipient then recipientIdSize else 0 := by
  rw [← p.recipientId_flag]
  cases present : p.recipientId with
  | none => rfl
  | some id => simpa using p.recipientId_size id (by simp [present])

theorem signature_length : (p.signature.getD []).length =
    if hasFlag p.flags flagHasSignature then signatureSize else 0 := by
  rw [← p.signature_flag]
  cases present : p.signature with
  | none => rfl
  | some value => simpa using p.signature_size value (by simp [present])

theorem wire_length : (wireHeader p ++ wireBody p).length =
    expectedUnpaddedSize p.flags p.payload.length := by
  simp only [List.length_append, wireHeader_length, wireBody, p.senderId_size, recipient_length,
    signature_length, expectedUnpaddedSize]
  omega

/-- Encoding never fails; it writes the header and the fields and pads them. -/
theorem encodePacket_eq (filler : Nat → UInt8) (addPadding : Bool) :
    encodePacket filler p addPadding = .ok
      (if addPadding then padPacketData filler (wireHeader p ++ wireBody p)
        else wireHeader p ++ wireBody p) := by
  have recipient : ∀ message, optionalField p.hasRecipient p.recipientId recipientIdSize message =
      .ok (p.recipientId.getD []) := by
    intro message
    rw [p.hasRecipient_eq]
    cases present : p.recipientId with
    | none => rfl
    | some id => simp [optionalField, p.recipientId_size id (by simp [present])]
  have signature : ∀ message, optionalField p.hasSignature p.signature signatureSize message =
      .ok (p.signature.getD []) := by
    intro message
    rw [p.hasSignature_eq]
    cases present : p.signature with
    | none => rfl
    | some value => simp [optionalField, p.signature_size value (by simp [present])]
  simp only [encodePacket, packBE_eq_some (headerFields_fit p), recipient, signature]
  rfl

end Layout

/-- Trailing bytes that `decodePacket` takes for padding. -/
def IsPadding (pad : Bytes) : Prop :=
  pad = [] ∨ ∃ front last, pad = front ++ [last] ∧ last.toNat = pad.length

theorem IsPadding.length_le {pad : Bytes} (padding : IsPadding pad) : pad.length ≤ maxPaddingSize := by
  rcases padding with rfl | ⟨front, last, _, counts⟩
  · exact Nat.zero_le _
  · have := last.toNat_lt
    simp only [maxPaddingSize]
    omega

/-- Padding appends bytes that count themselves, up to the block size or not at all. -/
theorem padPacketData_eq (filler : Nat → UInt8) (data : Bytes) :
    ∃ pad, padPacketData filler data = data ++ pad ∧ IsPadding pad := by
  simp only [padPacketData, Option.getD_none]
  generalize getOptimalBlockSize data.length = target
  split
  · exact ⟨[], by simp, Or.inl rfl⟩
  · split
    · exact ⟨[], by simp, Or.inl rfl⟩
    · rename_i longer most
      simp only [maxPaddingSize, not_lt] at most
      refine ⟨_, List.append_assoc .., Or.inr ⟨_, _, rfl, ?_⟩⟩
      simp only [List.length_append, List.length_map, List.length_range, List.length_singleton,
        UInt8.toNat_ofNat']
      omega

theorem stripPadding_append {data pad : Bytes} (padding : IsPadding pad) :
    stripPadding (data ++ pad) data.length = .ok data := by
  rcases padding with rfl | ⟨front, last, same, counts⟩
  · simp [stripPadding]
  · have positive : 0 < pad.length := by simp [same]
    have bound : pad.length ≤ maxPaddingSize := IsPadding.length_le (Or.inr ⟨front, last, same, counts⟩)
    have final : ((data ++ pad).getLast?.getD 0).toNat = pad.length := by
      rw [← counts, same, ← List.append_assoc]
      simp
    have longer : (data ++ pad).length = data.length + pad.length := List.length_append
    unfold stripPadding
    rw [if_neg (by omega), if_neg (by omega)]
    simp only [final, longer, Nat.add_sub_cancel_left]
    rw [if_neg (by omega), List.take_left' rfl]

/-- Every field is read back from its place. -/
theorem extractFields_wire (p : BitchatPacket) :
    extractFields p.version p.messageType p.ttl p.timestamp p.flags p.payload.length
      (wireHeader p ++ wireBody p) = .ok p := by
  have headerSize := wireHeader_length p
  have senderSize := p.senderId_size
  have recipientSize := recipient_length p
  have signatureLength := signature_length p
  have sender : slice (wireHeader p ++ wireBody p) fixedHeaderSize
      (fixedHeaderSize + senderIdSize) = p.senderId :=
    slice_append _ _ _ headerSize.symm (by rw [senderSize])
  have rest : wireHeader p ++ wireBody p = (wireHeader p ++ p.senderId) ++
      (p.recipientId.getD [] ++ (p.payload ++ p.signature.getD [])) := by simp [wireBody]
  have recipient : (if hasFlag p.flags flagHasRecipient then
      some (slice (wireHeader p ++ wireBody p) (fixedHeaderSize + senderIdSize)
        (fixedHeaderSize + senderIdSize +
          if hasFlag p.flags flagHasRecipient then recipientIdSize else 0))
      else none) = p.recipientId := by
    rw [rest, slice_append _ _ _ (by simp [headerSize, senderSize]) (by rw [recipientSize]),
      ← p.recipientId_flag]
    cases p.recipientId <;> rfl
  have payload : slice (wireHeader p ++ wireBody p)
      (fixedHeaderSize + senderIdSize +
        if hasFlag p.flags flagHasRecipient then recipientIdSize else 0)
      ((fixedHeaderSize + senderIdSize +
        if hasFlag p.flags flagHasRecipient then recipientIdSize else 0) + p.payload.length) =
      p.payload := by
    rw [rest, ← List.append_assoc]
    exact slice_append _ _ _ (by simp [headerSize, senderSize, recipientSize, Nat.add_assoc]) rfl
  have signature : (if hasFlag p.flags flagHasSignature then
      some (slice (wireHeader p ++ wireBody p)
        ((fixedHeaderSize + senderIdSize +
          if hasFlag p.flags flagHasRecipient then recipientIdSize else 0) + p.payload.length)
        (((fixedHeaderSize + senderIdSize +
          if hasFlag p.flags flagHasRecipient then recipientIdSize else 0) + p.payload.length) +
          signatureSize))
      else none) = p.signature := by
    have whole : wireHeader p ++ wireBody p = (wireHeader p ++ p.senderId ++
        p.recipientId.getD [] ++ p.payload) ++ (p.signature.getD [] ++ []) := by simp [wireBody]
    rw [← p.signature_flag] at signatureLength ⊢
    rw [whole]
    cases present : p.signature with
    | none => rfl
    | some value =>
      have size := p.signature_size value (by simp [present])
      have place := slice_append (wireHeader p ++ p.senderId ++ p.recipientId.getD [] ++ p.payload)
        value [] rfl rfl
      simp only [List.length_append, headerSize, senderSize, recipientSize, size] at place
      simpa using place
  simp only [extractFields, sender, recipient, payload, signature, p.make_fields]

/-- Decoding the wire form of a version 1 packet, with any padding behind it. -/
theorem decodePacket_wire (p : BitchatPacket) (current : p.version = currentProtocolVersion)
    {pad : Bytes} (padding : IsPadding pad) :
    decodePacket (wireHeader p ++ wireBody p ++ pad) = .ok p := by
  have size := wire_length p
  have long : ¬ (wireHeader p ++ wireBody p ++ pad).length < minimumPacketSize := by
    rw [List.length_append, size]
    simp only [expectedUnpaddedSize, minimumPacketSize]
    omega
  have header : (wireHeader p ++ wireBody p ++ pad).take fixedHeaderSize = wireHeader p := by
    rw [List.append_assoc, List.take_left' (wireHeader_length p)]
  have fields : unpackBE [1, 1, 1, 8, 1, 2] (wireHeader p) =
      [p.version, p.messageType.code, p.ttl, p.timestamp, p.flags, p.payload.length] := by
    have read := unpackBE_pack (headerFields_fit p) []
    rw [List.append_nil] at read
    exact read
  unfold decodePacket
  rw [if_neg long, header, fields]
  simp only [current, ne_eq, not_true, if_false, MessageType.ofCode_code]
  rw [← size, stripPadding_append padding]
  simpa [current] using extractFields_wire p

/-- What the encoder writes: the wire form, and padding when it is asked for. -/
theorem encodePacket_wire (filler : Nat → UInt8) (p : BitchatPacket) (addPadding : Bool) :
    ∃ pad, encodePacket filler p addPadding = .ok (wireHeader p ++ wireBody p ++ pad) ∧
      IsPadding pad := by
  rw [encodePacket_eq]
  cases addPadding with
  | false => exact ⟨[], by simp, Or.inl rfl⟩
  | true =>
    obtain ⟨pad, same, padding⟩ := padPacketData_eq filler (wireHeader p ++ wireBody p)
    exact ⟨pad, by simp [same], padding⟩

/-- Encoding and decoding a version 1 packet gives it back, padded or not. -/
theorem decodePacket_encodePacket (filler : Nat → UInt8) (p : BitchatPacket)
    (current : p.version = currentProtocolVersion) (addPadding : Bool) :
    (encodePacket filler p addPadding).bind decodePacket = .ok p := by
  obtain ⟨pad, wrote, padding⟩ := encodePacket_wire filler p addPadding
  rw [wrote]
  exact decodePacket_wire p current padding

/-- Every version 1 packet is written, and what is written is read as that packet. -/
theorem codec_round_trip (filler : Nat → UInt8) (p : BitchatPacket) (addPadding : Bool)
    (current : p.version = currentProtocolVersion) :
    ∃ data, encodePacket filler p addPadding = .ok data ∧ decodePacket data = .ok p := by
  obtain ⟨pad, wrote, padding⟩ := encodePacket_wire filler p addPadding
  exact ⟨_, wrote, decodePacket_wire p current padding⟩

/-- A packet with one byte of payload, padded to a block of 256 bytes. -/
theorem codec_round_trip_short : ∃ p : BitchatPacket, p.payload = [7] ∧ ∃ data,
    encodePacket (fun _ => 0) p true = .ok data ∧ decodePacket data = .ok p := by
  let p := BitchatPacket.plainMessage (List.replicate 8 1) [7] (by decide) (by decide)
  exact ⟨p, rfl, codec_round_trip _ p true rfl⟩

end Bitchat.Protocol
