import Bitchat.Data.Words
import Bitchat.Protocol.CodecGrammar

/-! The packet codec of the Nim prototype, which works on pointers, offsets and machine words. -/
namespace Bitchat.Nim
open Bytes

def currentProtocolVersion : UInt8 := 1
def fixedHeaderSize : Nat := 14
def minimumPacketSize : Nat := 22
def senderIdSize : Nat := 8
def recipientIdSize : Nat := 8
def signatureSize : Nat := 64
def maxPaddingSize : Nat := 255
def paddingOverheadEstimate : Nat := 16

def flagHasRecipient : UInt8 := 0x01
def flagHasSignature : UInt8 := 0x02

def blockSizes : List Nat := [256, 512, 1024, 2048]

def bitchatOk : Int := 0
def errPacketTooSmall : Int := -3
def errBadVersion : Int := -4
def errBadMsgType : Int := -5
def errCorruptPadding : Int := -6

def isValidMessageType (val : UInt8) : Bool :=
  (0x01 ≤ val && val ≤ 0x0C) || (0x10 ≤ val && val ≤ 0x13) || (0x20 ≤ val && val ≤ 0x25)

def getOptimalBlockSize (unpaddedSize : Nat) : Nat :=
  (blockSizes.find? fun bs => unpaddedSize + paddingOverheadEstimate ≤ bs).getD unpaddedSize

/-- `filler` gives the bytes of `urandom`. -/
def padPacketData (filler : Nat → UInt8) (data : Bytes) (targetSize : Nat := 0) : Bytes :=
  let target := if 0 < targetSize then targetSize else getOptimalBlockSize data.length
  if target ≤ data.length then data
  else
    let paddingNeeded := target - data.length
    if maxPaddingSize < paddingNeeded then data
    else data ++ (List.range (paddingNeeded - 1)).map filler ++ [UInt8.ofNat paddingNeeded]

def writeBigEndian64 (buf : Bytes) (offset : Nat) (val : UInt64) : Bytes :=
  let buf := buf.set offset (val >>> 56 &&& 0xFF).toUInt8
  let buf := buf.set (offset + 1) (val >>> 48 &&& 0xFF).toUInt8
  let buf := buf.set (offset + 2) (val >>> 40 &&& 0xFF).toUInt8
  let buf := buf.set (offset + 3) (val >>> 32 &&& 0xFF).toUInt8
  let buf := buf.set (offset + 4) (val >>> 24 &&& 0xFF).toUInt8
  let buf := buf.set (offset + 5) (val >>> 16 &&& 0xFF).toUInt8
  let buf := buf.set (offset + 6) (val >>> 8 &&& 0xFF).toUInt8
  buf.set (offset + 7) (val &&& 0xFF).toUInt8

def writeBigEndian16 (buf : Bytes) (offset : Nat) (val : UInt16) : Bytes :=
  let buf := buf.set offset (val >>> 8 &&& 0xFF).toUInt8
  buf.set (offset + 1) (val &&& 0xFF).toUInt8

/-- The byte at an address; every use lies within the data. -/
def byteAt (data : Bytes) (i : Nat) : UInt8 := data.getD i 0

def readBigEndian64 (buf : Bytes) (offset : Nat) : UInt64 :=
  (byteAt buf offset).toUInt64 <<< 56 |||
  (byteAt buf (offset + 1)).toUInt64 <<< 48 |||
  (byteAt buf (offset + 2)).toUInt64 <<< 40 |||
  (byteAt buf (offset + 3)).toUInt64 <<< 32 |||
  (byteAt buf (offset + 4)).toUInt64 <<< 24 |||
  (byteAt buf (offset + 5)).toUInt64 <<< 16 |||
  (byteAt buf (offset + 6)).toUInt64 <<< 8 |||
  (byteAt buf (offset + 7)).toUInt64

def readBigEndian16 (buf : Bytes) (offset : Nat) : UInt16 :=
  (byteAt buf offset).toUInt16 <<< 8 ||| (byteAt buf (offset + 1)).toUInt16

/-- One optional field: copied, and the offset moved, when it is wanted and its pointer not nil. -/
def copyField (wanted : Bool) (field : Option Bytes) (size : Nat) (buf : Bytes) (offset : Nat) :
    Option (Bytes × Nat) :=
  match field with
  | some source =>
    if wanted then (copyMem buf offset source size).map (·, offset + size) else some (buf, offset)
  | none => some (buf, offset)

/-- Pointers are the bytes they point to, `none` when nil. The result is `none` where memory outside
of them would be read. -/
def encodePacketRaw (filler : Nat → UInt8) (version msgType ttl : UInt8) (timestamp : UInt64)
    (flags : UInt8) (senderId recipientId payload : Option Bytes) (payloadLen : Nat)
    (signature : Option Bytes) (addPadding : Bool := true) : Option Bytes :=
  let hasRecipient := flags &&& flagHasRecipient != 0
  let hasSig := flags &&& flagHasSignature != 0
  let unpaddedSize := fixedHeaderSize + senderIdSize + (if hasRecipient then recipientIdSize else 0) +
    payloadLen + (if hasSig then signatureSize else 0)
  let unpadded : Bytes := List.replicate unpaddedSize 0
  let unpadded := unpadded.set 0 version
  let unpadded := unpadded.set 1 msgType
  let unpadded := unpadded.set 2 ttl
  let unpadded := writeBigEndian64 unpadded 3 timestamp
  let unpadded := unpadded.set 11 flags
  let unpadded := writeBigEndian16 unpadded 12 (UInt16.ofNat payloadLen)
  let offset := fixedHeaderSize
  senderId.bind fun source =>
  (copyMem unpadded offset source senderIdSize).bind fun unpadded =>
  (copyField hasRecipient recipientId recipientIdSize unpadded (offset + senderIdSize)).bind fun (unpadded, offset) =>
  (copyField (0 < payloadLen) payload payloadLen unpadded offset).bind fun (unpadded, offset) =>
  (copyField hasSig signature signatureSize unpadded offset).map fun (unpadded, _) =>
    if addPadding then padPacketData filler unpadded else unpadded

/-- The address of an array, nil when it is empty. -/
def addrOf (array : Bytes) : Option Bytes := if array = [] then none else some array

/-- The overload of `encodePacketRaw` for arrays. -/
def encodePacketArrays (filler : Nat → UInt8) (version msgType ttl : UInt8) (timestamp : UInt64)
    (flags : UInt8) (senderId recipientId payload signature : Bytes) (addPadding : Bool := true) :
    Option Bytes :=
  encodePacketRaw filler version msgType ttl timestamp flags (addrOf senderId) (addrOf recipientId)
    (addrOf payload) payload.length (addrOf signature) addPadding

structure RawPacketHeader where
  version : UInt8 := 0
  msgType : UInt8 := 0
  ttl : UInt8 := 0
  timestamp : UInt64 := 0
  flags : UInt8 := 0
  payloadLen : UInt16 := 0
deriving DecidableEq

/-- The variables that `decodePacketRaw` assigns. -/
structure RawPacket where
  header : RawPacketHeader := {}
  senderId : Bytes := List.replicate 8 0
  recipientId : Bytes := List.replicate 8 0
  payloadOffset : Nat := 0
  payloadLen : Nat := 0
  sigOffset : Int := 0
deriving DecidableEq

/-- The size a header calls for. -/
def unpaddedExpected (header : RawPacketHeader) : Nat :=
  fixedHeaderSize + senderIdSize +
    (if header.flags &&& flagHasRecipient != 0 then recipientIdSize else 0) + header.payloadLen.toNat +
    (if header.flags &&& flagHasSignature != 0 then signatureSize else 0)

/-- The fields behind a header whose size has been checked. -/
def locateFields (data : Bytes) (header : RawPacketHeader) : RawPacket :=
  let hasRecipient := header.flags &&& flagHasRecipient != 0
  let hasSig := header.flags &&& flagHasSignature != 0
  let offset := fixedHeaderSize
  let senderId := slice data offset (offset + senderIdSize)
  let offset := offset + senderIdSize
  let recipientId := if hasRecipient then slice data offset (offset + recipientIdSize)
    else List.replicate recipientIdSize 0
  let offset := if hasRecipient then offset + recipientIdSize else offset
  { header, senderId, recipientId
    payloadOffset := offset
    payloadLen := header.payloadLen.toNat
    sigOffset := if hasSig then ((offset + header.payloadLen.toNat : Nat) : Int) else -1 }

/-- The status, and what the variables are afterwards. -/
def decodePacketRaw (data : Bytes) (out : RawPacket) : Int × RawPacket :=
  if data.length < minimumPacketSize then (errPacketTooSmall, out)
  else
    let header := { out.header with version := byteAt data 0 }
    if header.version ≠ currentProtocolVersion then (errBadVersion, { out with header })
    else
      let header := { header with msgType := byteAt data 1 }
      if ¬ isValidMessageType header.msgType then (errBadMsgType, { out with header })
      else
        let header := { header with
          ttl := byteAt data 2
          timestamp := readBigEndian64 data 3
          flags := byteAt data 11
          payloadLen := readBigEndian16 data 12 }
        if data.length < unpaddedExpected header then (errPacketTooSmall, { out with header })
        else
          let paddingNeeded := data.length - unpaddedExpected header
          if unpaddedExpected header < data.length ∧
              (maxPaddingSize < paddingNeeded ∨ paddingNeeded ≤ 0) then
            (errCorruptPadding, { out with header })
          else if unpaddedExpected header < data.length ∧
              byteAt data (data.length - 1) ≠ UInt8.ofNat paddingNeeded then
            (errCorruptPadding, { out with header })
          else (bitchatOk, locateFields data header)

/-- The overload of `decodePacketRaw` for arrays. -/
def decodePacketArray (data : Bytes) (out : RawPacket) : Int × RawPacket :=
  if data.length = 0 then (errPacketTooSmall, out) else decodePacketRaw data out

section Encoding
variable {size offset : Nat} {written : Bytes}

theorem filled_writeBigEndian64 (here : written.length = offset) (room : offset + 8 ≤ size) (val : UInt64) :
    writeBigEndian64 (filled size written) offset val = filled size (written ++ toBE 8 val.toNat) := by
  rw [← split64, writeBigEndian64]
  rw [filled_set here (by omega), filled_set (by simp [here]) (by omega), filled_set (by simp [here]) (by omega),
    filled_set (by simp [here]) (by omega), filled_set (by simp [here]) (by omega),
    filled_set (by simp [here]) (by omega), filled_set (by simp [here]) (by omega),
    filled_set (by simp [here]) (by omega)]
  simp

theorem filled_writeBigEndian16 (here : written.length = offset) (room : offset + 2 ≤ size) (val : UInt16) :
    writeBigEndian16 (filled size written) offset val = filled size (written ++ toBE 2 val.toNat) := by
  rw [← split16, writeBigEndian16]
  rw [filled_set here (by omega), filled_set (by simp [here]) (by omega)]
  simp

/-- A field that is wanted when it is there, and then of the right size, is written. -/
theorem filled_copyField (size : Nat) {field : Bytes} {k : Nat} {wanted : Bool} (here : written.length = offset)
    (room : offset + field.length ≤ size) (present : field ≠ [] → wanted = true ∧ field.length = k) :
    copyField wanted (addrOf field) k (filled size written) offset =
      some (filled size (written ++ field), offset + field.length) := by
  by_cases empty : field = []
  · subst empty
    simp [addrOf, copyField]
  · obtain ⟨rfl, rfl⟩ := present empty
    have copied := filled_copyMem here (le_refl field.length) room
    simp only [addrOf, if_neg empty, copyField, if_true, copied, List.take_length, Option.map_some]

open Protocol

theorem flag_test {flags : Nat} (byte : flags ≤ 255) (flag : UInt8) :
    (UInt8.ofNat flags &&& flag != 0) = hasFlag flags flag.toNat := by
  rw [hasFlag, Bool.eq_iff_iff]
  simp only [bne_iff_ne, ne_eq, ← UInt8.toNat_inj, UInt8.toNat_and, UInt8.toNat_ofNat']
  rw [Nat.mod_eq_of_lt (by omega)]
  rfl

variable {p : BitchatPacket}

/-- The header is written field by field. -/
theorem filled_header (room : Protocol.fixedHeaderSize ≤ size) :
    writeBigEndian16 ((writeBigEndian64 ((((List.replicate size 0).set 0 (UInt8.ofNat p.version)).set 1
      (UInt8.ofNat p.messageType.code)).set 2 (UInt8.ofNat p.ttl)) 3 (UInt64.ofNat p.timestamp)).set 11
      (UInt8.ofNat p.flags)) 12 (UInt16.ofNat p.payload.length) = filled size (wireHeader p) := by
  have timestamp : (UInt64.ofNat p.timestamp).toNat = p.timestamp :=
    UInt64.toNat_ofNat_of_lt' (Nat.lt_succ_of_le p.timestamp_le)
  have payloadLen : (UInt16.ofNat p.payload.length).toNat = p.payload.length :=
    UInt16.toNat_ofNat_of_lt' (Nat.lt_succ_of_le p.payload_size)
  have new : List.replicate size (0 : UInt8) = filled size [] := by simp [filled]
  rw [Protocol.fixedHeaderSize] at room
  rw [new, filled_set (by simp) (by omega), filled_set (by simp) (by omega), filled_set (by simp) (by omega),
    filled_writeBigEndian64 (by simp) (by omega), filled_set (by simp) (by omega),
    filled_writeBigEndian16 (by simp) (by omega), timestamp, payloadLen]
  simp [wireHeader, headerFields, toBE, toLE]

theorem padPacketData_eq (filler : Nat → UInt8) (data : Bytes) :
    Nim.padPacketData filler data = Protocol.padPacketData filler data := rfl

/-- The prototype writes the wire form of every packet, and pads it when it is told to. -/
theorem encodePacketArrays_wire (filler : Nat → UInt8) (p : BitchatPacket) (addPadding : Bool) :
    encodePacketArrays filler (UInt8.ofNat p.version) (UInt8.ofNat p.messageType.code) (UInt8.ofNat p.ttl)
      (UInt64.ofNat p.timestamp) (UInt8.ofNat p.flags) p.senderId (p.recipientId.getD []) p.payload
      (p.signature.getD []) addPadding = some (if addPadding then
        Protocol.padPacketData filler (wireHeader p ++ wireBody p) else wireHeader p ++ wireBody p) := by
  have hasRecipient : (UInt8.ofNat p.flags &&& Nim.flagHasRecipient != 0) =
      hasFlag p.flags Protocol.flagHasRecipient := flag_test p.flags_le _
  have hasSig : (UInt8.ofNat p.flags &&& Nim.flagHasSignature != 0) =
      hasFlag p.flags Protocol.flagHasSignature := flag_test p.flags_le _
  have sender : p.senderId.length = Nim.senderIdSize := p.senderId_size
  have recipient := recipient_length p
  have signature := signature_length p
  have header : (wireHeader p).length = Nim.fixedHeaderSize := wireHeader_length p
  have named : addrOf p.senderId = some p.senderId := by
    rw [addrOf, if_neg]
    rintro empty
    rw [empty] at sender
    cases sender
  have whole : Nim.fixedHeaderSize + Nim.senderIdSize +
      (if hasFlag p.flags Protocol.flagHasRecipient then Nim.recipientIdSize else 0) + p.payload.length +
      (if hasFlag p.flags Protocol.flagHasSignature then Nim.signatureSize else 0) =
      (wireHeader p ++ wireBody p).length := (wire_length p).symm
  simp only [encodePacketArrays, encodePacketRaw, hasRecipient, hasSig, named, Option.bind_some, whole]
  rw [filled_header (by rw [List.length_append, wireHeader_length]; omega)]
  have parts : (wireHeader p ++ wireBody p).length = Nim.fixedHeaderSize + Nim.senderIdSize +
      (p.recipientId.getD []).length + p.payload.length + (p.signature.getD []).length := by
    rw [recipient, signature]
    exact whole.symm
  generalize (wireHeader p ++ wireBody p).length = size at parts
  have first : copyMem (filled size (wireHeader p)) Nim.fixedHeaderSize p.senderId Nim.senderIdSize =
      some (filled size (wireHeader p ++ p.senderId)) := by
    rw [filled_copyMem header sender.ge (by omega), ← sender, List.take_length]
  have wantsRecipient : p.recipientId.getD [] ≠ [] → hasFlag p.flags Protocol.flagHasRecipient = true ∧
      (p.recipientId.getD []).length = Nim.recipientIdSize := by
    intro present
    split at recipient
    · next wanted => exact ⟨wanted, recipient⟩
    · exact absurd (List.length_eq_zero_iff.mp recipient) present
  have wantsSignature : p.signature.getD [] ≠ [] → hasFlag p.flags Protocol.flagHasSignature = true ∧
      (p.signature.getD []).length = Nim.signatureSize := by
    intro present
    split at signature
    · next wanted => exact ⟨wanted, signature⟩
    · exact absurd (List.length_eq_zero_iff.mp signature) present
  have wantsPayload : p.payload ≠ [] →
      decide (0 < p.payload.length) = true ∧ p.payload.length = p.payload.length :=
    fun present => ⟨decide_eq_true (List.length_pos_iff.mpr present), rfl⟩
  have behindSender : (wireHeader p ++ p.senderId).length = Nim.fixedHeaderSize + Nim.senderIdSize := by
    rw [List.length_append, header, sender]
  have second := filled_copyField size behindSender (by omega) wantsRecipient
  have behindRecipient : (wireHeader p ++ p.senderId ++ p.recipientId.getD []).length =
      Nim.fixedHeaderSize + Nim.senderIdSize + (p.recipientId.getD []).length := by
    rw [List.length_append, behindSender]
  have third := filled_copyField size behindRecipient (by omega) wantsPayload
  have behindPayload : (wireHeader p ++ p.senderId ++ p.recipientId.getD [] ++ p.payload).length =
      Nim.fixedHeaderSize + Nim.senderIdSize + (p.recipientId.getD []).length + p.payload.length := by
    rw [List.length_append, behindRecipient]
  have fourth := filled_copyField size behindPayload (by omega) wantsSignature
  simp only [first, second, third, fourth, Option.bind_some, Option.map_some]
  rw [filled_whole (by rw [List.length_append, behindPayload, parts]), wireBody, padPacketData_eq]
  simp only [List.append_assoc]

end Encoding

section Decoding
open Protocol

/-- The header at the front of the data. -/
def headerOf (data : Bytes) : RawPacketHeader where
  version := byteAt data 0
  msgType := byteAt data 1
  ttl := byteAt data 2
  timestamp := readBigEndian64 data 3
  flags := byteAt data 11
  payloadLen := readBigEndian16 data 12

/-- There are as many bytes as the header calls for, and others only where the last one counts them. -/
def PaddingCounts (data : Bytes) (expected : Nat) : Prop :=
  expected ≤ data.length ∧ (expected < data.length →
    data.length - expected ≤ 255 ∧ (byteAt data (data.length - 1)).toNat = data.length - expected)

/-- What the prototype accepts. -/
structure Accepts (data : Bytes) : Prop where
  long : Nim.minimumPacketSize ≤ data.length
  version : (headerOf data).version = Nim.currentProtocolVersion
  known : isValidMessageType (headerOf data).msgType = true
  counts : PaddingCounts data (unpaddedExpected (headerOf data))

/-- The padding of some bytes counts itself. -/
theorem padding_checks {data : Bytes} {expected : Nat} (long : ¬ data.length < expected) :
    ¬ (expected < data.length ∧ (Nim.maxPaddingSize < data.length - expected ∨ data.length - expected ≤ 0)) ∧
    ¬ (expected < data.length ∧ byteAt data (data.length - 1) ≠ UInt8.ofNat (data.length - expected)) ↔
    PaddingCounts data expected := by
  have last := (byteAt data (data.length - 1)).toNat_lt
  simp only [PaddingCounts, Nim.maxPaddingSize, ne_eq, ← UInt8.toNat_inj, UInt8.toNat_ofNat']
  constructor
  · rintro ⟨few, counted⟩
    refine ⟨not_lt.mp long, fun more => ?_⟩
    have small : data.length - expected ≤ 255 := by omega
    rw [Nat.mod_eq_of_lt (by omega)] at counted
    exact ⟨small, not_not.mp fun wrong => counted ⟨more, wrong⟩⟩
  · rintro ⟨_, counted⟩
    refine ⟨fun ⟨more, bad⟩ => ?_, fun ⟨more, bad⟩ => ?_⟩
    · have := counted more
      omega
    · obtain ⟨small, same⟩ := counted more
      rw [Nat.mod_eq_of_lt (by omega)] at bad
      exact bad same

/-- The prototype locates the fields of what it accepts and refuses the rest. -/
theorem decodePacketRaw_spec (data : Bytes) (out : RawPacket) :
    (Accepts data → decodePacketRaw data out = (bitchatOk, locateFields data (headerOf data))) ∧
    (¬ Accepts data → (decodePacketRaw data out).1 ≠ bitchatOk) := by
  unfold decodePacketRaw
  split
  · next short => exact ⟨fun accepts => absurd accepts.long (by omega),
      fun _ => (by decide : errPacketTooSmall ≠ bitchatOk)⟩
  · next long =>
    simp only
    split
    · next other => exact ⟨fun accepts => absurd accepts.version other,
        fun _ => (by decide : errBadVersion ≠ bitchatOk)⟩
    · next current =>
      split
      · next unknown => exact ⟨fun accepts => absurd accepts.known unknown,
          fun _ => (by decide : errBadMsgType ≠ bitchatOk)⟩
      · next known =>
        have header : { out.header with
            version := byteAt data 0
            msgType := byteAt data 1
            ttl := byteAt data 2
            timestamp := readBigEndian64 data 3
            flags := byteAt data 11
            payloadLen := readBigEndian16 data 12 } = headerOf data := rfl
        simp only [header]
        split
        · next short => exact ⟨fun accepts => absurd accepts.counts.1 (by omega),
            fun _ => (by decide : errPacketTooSmall ≠ bitchatOk)⟩
        · next enough =>
          have checks := padding_checks enough
          split
          · next bad => exact ⟨fun accepts => absurd bad (checks.mpr accepts.counts).1,
              fun _ => (by decide : errCorruptPadding ≠ bitchatOk)⟩
          · next few =>
            split
            · next bad => exact ⟨fun accepts => absurd bad (checks.mpr accepts.counts).2,
                fun _ => (by decide : errCorruptPadding ≠ bitchatOk)⟩
            · next counted =>
              have accepts : Accepts data :=
                ⟨not_lt.mp long, not_not.mp current, not_not.mp known, checks.mp ⟨few, counted⟩⟩
              exact ⟨fun _ => rfl, fun refused => absurd accepts refused⟩

/-- An empty array is too small, as any other of its size. -/
theorem decodePacketArray_eq (data : Bytes) (out : RawPacket) :
    decodePacketArray data out = decodePacketRaw data out := by
  unfold decodePacketArray
  split
  · next empty => rw [decodePacketRaw, if_pos (by rw [empty]; decide)]
  · rfl

/-- A field is read byte by byte. -/
theorem slice_eq_bytes {data : Bytes} {start stop : Nat} (inside : stop ≤ data.length) :
    slice data start stop = (List.range (stop - start)).map fun i => byteAt data (start + i) := by
  refine List.ext_getElem (by rw [slice_length, List.length_map, List.length_range]; omega) fun i before _ => ?_
  have within : start + i < data.length := by rw [slice_length] at before; omega
  simp [slice, byteAt, within]

/-- Both read the same six header fields. -/
theorem unpack_header {data : Bytes} (long : Protocol.fixedHeaderSize ≤ data.length) :
    unpackBE [1, 1, 1, 8, 1, 2] (data.take Protocol.fixedHeaderSize) =
      [(headerOf data).version.toNat, (headerOf data).msgType.toNat, (headerOf data).ttl.toNat,
        (headerOf data).timestamp.toNat, (headerOf data).flags.toNat, (headerOf data).payloadLen.toNat] := by
  have fixed : data.take Protocol.fixedHeaderSize = slice data 0 Protocol.fixedHeaderSize := rfl
  rw [fixed, slice_eq_bytes long]
  simp only [headerOf, readBigEndian64, readBigEndian16, toNat_join64, toNat_join16]
  simp [Protocol.fixedHeaderSize, List.range_succ, unpackBE, ofBE, ofLE]

theorem isValidMessageType_iff (val : UInt8) :
    isValidMessageType val = (MessageType.ofCode val.toNat).isSome := by
  have each : ∀ n < 256, isValidMessageType (UInt8.ofNat n) = (MessageType.ofCode n).isSome := by
    decide +kernel
  simpa using each val.toNat val.toNat_lt

theorem unpaddedExpected_eq (header : RawPacketHeader) :
    unpaddedExpected header = expectedUnpaddedSize header.flags.toNat header.payloadLen.toNat := by
  have flags := flag_test (Nat.le_of_lt_succ header.flags.toNat_lt)
  rw [UInt8.ofNat_toNat] at flags
  rw [unpaddedExpected, flags, flags]
  rfl

/-- The padding that counts itself is what the decoder strips. -/
theorem stripPadding_counts (data : Bytes) (expected : Nat) :
    (PaddingCounts data expected → stripPadding data expected = .ok (data.take expected)) ∧
    (¬ PaddingCounts data expected → ∃ e, stripPadding data expected = .error e) := by
  have last : (data.getLast?.getD 0).toNat = (byteAt data (data.length - 1)).toNat := by
    rw [byteAt, List.getLast?_eq_getElem?, List.getD_eq_getElem?_getD]
  unfold stripPadding
  split
  · next short => exact ⟨fun counts => absurd counts.1 (by omega), fun _ => ⟨_, rfl⟩⟩
  · next long =>
    split
    · next same =>
      rw [← same, List.take_length]
      exact ⟨fun _ => rfl, fun refused => absurd ⟨le_rfl, fun more => by omega⟩ refused⟩
    · next other =>
      simp only [last, Protocol.maxPaddingSize]
      split
      · next bad =>
        refine ⟨fun counts => ?_, fun _ => ⟨_, rfl⟩⟩
        have := counts.2 (by omega)
        omega
      · next good => exact ⟨fun _ => rfl, fun refused => absurd ⟨by omega, fun _ => by omega⟩ refused⟩

/-- The Python decoder fails on what the prototype refuses, and reads the fields of the rest. -/
theorem decodePacket_spec (data : Bytes) :
    (Accepts data → ∃ messageType, messageType.code = (headerOf data).msgType.toNat ∧
      decodePacket data = extractFields (headerOf data).version.toNat messageType (headerOf data).ttl.toNat
        (headerOf data).timestamp.toNat (headerOf data).flags.toNat (headerOf data).payloadLen.toNat
        (data.take (unpaddedExpected (headerOf data)))) ∧
    (¬ Accepts data → ∃ e, decodePacket data = .error e) := by
  unfold decodePacket
  split
  · next short => exact ⟨fun accepts => absurd accepts.long (not_le.mpr short), fun _ => ⟨_, rfl⟩⟩
  · next long =>
    have enough : Protocol.fixedHeaderSize ≤ data.length := by
      simp only [Protocol.minimumPacketSize, Protocol.fixedHeaderSize] at long ⊢
      omega
    simp only [unpack_header enough, ← unpaddedExpected_eq]
    split
    · next other =>
      refine ⟨fun accepts => absurd ?_ other, fun _ => ⟨_, rfl⟩⟩
      rw [accepts.version]
      rfl
    · next current =>
      cases known : MessageType.ofCode (headerOf data).msgType.toNat with
      | none =>
        refine ⟨fun accepts => ?_, fun _ => ⟨_, rfl⟩⟩
        have valid := accepts.known
        rw [isValidMessageType_iff, known] at valid
        cases valid
      | some messageType =>
        obtain ⟨strips, fails⟩ := stripPadding_counts data (unpaddedExpected (headerOf data))
        simp only
        constructor
        · intro accepts
          rw [strips accepts.counts]
          exact ⟨messageType, MessageType.code_ofCode known, rfl⟩
        · intro refused
          have miscounts : ¬ PaddingCounts data (unpaddedExpected (headerOf data)) := by
            intro counts
            refine refused ⟨not_lt.mp long, UInt8.toNat_inj.mp (not_not.mp current), ?_, counts⟩
            rw [isValidMessageType_iff, known]
            rfl
          obtain ⟨e, failed⟩ := fails miscounts
          rw [failed]
          exact ⟨e, rfl⟩

/-- The variables describe the packet: its header, its ids, and where its payload and signature lie. -/
structure Describes (data : Bytes) (raw : RawPacket) (p : BitchatPacket) : Prop where
  version : raw.header.version.toNat = p.version
  msgType : raw.header.msgType.toNat = p.messageType.code
  ttl : raw.header.ttl.toNat = p.ttl
  timestamp : raw.header.timestamp.toNat = p.timestamp
  flags : raw.header.flags.toNat = p.flags
  payloadLen : raw.header.payloadLen.toNat = p.payload.length
  senderId : raw.senderId = p.senderId
  recipientId : raw.recipientId = p.recipientId.getD (List.replicate 8 0)
  payload : slice data raw.payloadOffset (raw.payloadOffset + raw.payloadLen) = p.payload
  signature : p.signature = if raw.sigOffset = -1 then none
    else some (slice data raw.sigOffset.toNat (raw.sigOffset.toNat + 64))

/-- The fields located in accepted data are those that are read from it. -/
theorem locateFields_describes {data : Bytes} {messageType : MessageType} {p : BitchatPacket}
    (accepts : Accepts data) (known : messageType.code = (headerOf data).msgType.toNat)
    (read : extractFields (headerOf data).version.toNat messageType (headerOf data).ttl.toNat
      (headerOf data).timestamp.toNat (headerOf data).flags.toNat (headerOf data).payloadLen.toNat
      (data.take (unpaddedExpected (headerOf data))) = .ok p) :
    Describes data (locateFields data (headerOf data)) p := by
  obtain ⟨version, type, ttl, timestamp, flags, sender, recipient, payload, signature⟩ :=
    make_eq_ok (extractFields_make read)
  have flagged := flag_test (Nat.le_of_lt_succ (headerOf data).flags.toNat_lt)
  rw [UInt8.ofNat_toNat] at flagged
  simp only [Int.toNat_natCast] at version ttl timestamp flags
  have recipientFlag : hasFlag (headerOf data).flags.toNat Protocol.flagHasRecipient =
      ((headerOf data).flags &&& Nim.flagHasRecipient != 0) := (flagged Nim.flagHasRecipient).symm
  have signatureFlag : hasFlag (headerOf data).flags.toNat Protocol.flagHasSignature =
      ((headerOf data).flags &&& Nim.flagHasSignature != 0) := (flagged Nim.flagHasSignature).symm
  rw [recipientFlag] at recipient payload signature
  rw [signatureFlag] at signature
  have enough := accepts.counts.1
  have width : unpaddedExpected (headerOf data) =
      14 + 8 + (if (headerOf data).flags &&& Nim.flagHasRecipient != 0 then 8 else 0) +
        (headerOf data).payloadLen.toNat +
        (if (headerOf data).flags &&& Nim.flagHasSignature != 0 then 64 else 0) := rfl
  simp only [Protocol.fixedHeaderSize, Protocol.senderIdSize, Protocol.recipientIdSize,
    Protocol.signatureSize] at sender recipient payload signature
  have sized : p.payload.length = (headerOf data).payloadLen.toNat := by
    rw [payload, slice_length, List.length_take, Nat.min_eq_left enough]
    omega
  have place : (locateFields data (headerOf data)).payloadOffset =
      14 + 8 + (if (headerOf data).flags &&& Nim.flagHasRecipient != 0 then 8 else 0) := by
    rw [locateFields]
    cases (headerOf data).flags &&& Nim.flagHasRecipient != 0 <;> rfl
  have signed : (locateFields data (headerOf data)).sigOffset =
      if (headerOf data).flags &&& Nim.flagHasSignature != 0 then
        ((14 + 8 + (if (headerOf data).flags &&& Nim.flagHasRecipient != 0 then 8 else 0) +
          (headerOf data).payloadLen.toNat : Nat) : Int) else -1 := by
    rw [← place]
    rfl
  refine ⟨version.symm, by rw [type, known]; rfl, ttl.symm, timestamp.symm, flags.symm, sized.symm, ?_, ?_, ?_, ?_⟩
  · rw [sender, slice_take _ (by omega)]
    rfl
  · rw [recipient]
    cases present : ((headerOf data).flags &&& Nim.flagHasRecipient != 0) with
    | true =>
      simp only [present, ↓reduceIte] at width
      simp only [locateFields, present, ↓reduceIte]
      exact (slice_take _ (show 14 + 8 + 8 ≤ unpaddedExpected (headerOf data) by omega)).symm
    | false =>
      simp only [locateFields, present]
      rfl
  · rw [payload, slice_take _ (by omega), place]
    rfl
  · rw [signature, signed]
    cases present : ((headerOf data).flags &&& Nim.flagHasSignature != 0) with
    | true =>
      simp only [present, ↓reduceIte] at width
      have natural : ∀ n : Nat, ¬ (n : Int) = -1 := fun n => by omega
      simp only [↓reduceIte]
      rw [if_neg (natural _), Int.toNat_natCast, slice_take _ (by omega)]
    | false => rfl

end Decoding

/-- The two codecs agree. The prototype accepts the data that the Python decoder accepts and describes
the same packet, and writes the same bytes for every packet. -/
theorem codecs_agree (filler : Nat → UInt8) :
    (∀ data out, ((decodePacketArray data out).1 = bitchatOk ↔ ∃ p, Protocol.decodePacket data = .ok p) ∧
      ∀ p, Protocol.decodePacket data = .ok p → Describes data (decodePacketArray data out).2 p) ∧
    ∀ (p : Protocol.BitchatPacket) (addPadding : Bool), encodePacketArrays filler (UInt8.ofNat p.version)
      (UInt8.ofNat p.messageType.code) (UInt8.ofNat p.ttl) (UInt64.ofNat p.timestamp) (UInt8.ofNat p.flags)
      p.senderId (p.recipientId.getD []) p.payload (p.signature.getD []) addPadding =
      (Protocol.encodePacket filler p addPadding).toOption := by
  refine ⟨fun data out => ?_, fun p addPadding => ?_⟩
  · rw [decodePacketArray_eq]
    obtain ⟨locates, refuses⟩ := decodePacketRaw_spec data out
    obtain ⟨reads, fails⟩ := decodePacket_spec data
    by_cases accepts : Accepts data
    · obtain ⟨messageType, known, read⟩ := reads accepts
      rw [locates accepts, read]
      refine ⟨iff_of_true rfl ?_, fun p => locateFields_describes accepts known⟩
      apply Protocol.extractFields_total
      · exact Nat.le_of_lt_succ (headerOf data).version.toNat_lt
      · exact Nat.le_of_lt_succ (headerOf data).ttl.toNat_lt
      · exact Nat.le_of_lt_succ (headerOf data).timestamp.toNat_lt
      · exact Nat.le_of_lt_succ (headerOf data).flags.toNat_lt
      · exact Nat.le_of_lt_succ (headerOf data).payloadLen.toNat_lt
      · rw [List.length_take, Nat.min_eq_left accepts.counts.1, unpaddedExpected_eq]
    · obtain ⟨e, failed⟩ := fails accepts
      rw [failed]
      refine ⟨iff_of_false (refuses accepts) ?_, ?_⟩
      · rintro ⟨p, ⟨⟩⟩
      · rintro p ⟨⟩
  · rw [encodePacketArrays_wire, Protocol.encodePacket_eq]
    rfl

/-- A message for one device, as both decoders read it. -/
theorem note_described :
    let p := Protocol.BitchatPacket.noteTo 1 2 7
    let data := Protocol.wireHeader p ++ Protocol.wireBody p
    (decodePacketArray data {}).1 = bitchatOk ∧ Describes data (decodePacketArray data {}).2 p := by
  intro p data
  have decoded := Protocol.decodePacket_wire p rfl (Or.inl rfl : Protocol.IsPadding [])
  rw [List.append_nil] at decoded
  obtain ⟨accepted, described⟩ := (codecs_agree fun _ => 0).1 data {}
  exact ⟨accepted.mpr ⟨p, decoded⟩, described p decoded⟩

end Bitchat.Nim
