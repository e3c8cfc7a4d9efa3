import Bitchat.Protocol.CodecRoundTrip
import Bitchat.Protocol.ReassemblyProvenance

/-! Fragmenting an encoded packet and delivering the fragments, in any order and
with repetitions, gives the encoded packet back. -/
namespace Bitchat.Protocol
open Bytes

section Chunks
variable {data : Bytes} {chunkSize : Nat}

theorem chunksOf_length (data : Bytes) (chunkSize : Nat) : (chunksOf data chunkSize).length =
    (data.length + chunkSize - 1) / chunkSize := by simp [chunksOf]

theorem chunksOf_get {i : Nat} (h : i < (chunksOf data chunkSize).length) :
    (chunksOf data chunkSize)[i] = slice data (i * chunkSize) (i * chunkSize + chunkSize) := by
  simp [chunksOf]

/-- The first `count` chunks are the first bytes of the data. -/
theorem flatMap_slice (count : Nat) : ((List.range count).flatMap fun k =>
    slice data (k * chunkSize) (k * chunkSize + chunkSize)) = data.take (count * chunkSize) := by
  induction count with
  | zero => simp
  | succ count ih =>
    rw [List.range_succ, List.flatMap_append, ih, Nat.succ_mul, List.take_add]
    simp [slice]

theorem chunksOf_join (positive : 0 < chunkSize) :
    ((List.range (chunksOf data chunkSize).length).flatMap fun k =>
      slice data (k * chunkSize) (k * chunkSize + chunkSize)) = data := by
  rw [flatMap_slice, List.take_of_length_le]
  have := Nat.div_add_mod (data.length + chunkSize - 1) chunkSize
  have := Nat.mod_lt (data.length + chunkSize - 1) positive
  rw [chunksOf_length, Nat.mul_comm]
  omega

end Chunks

/-- The longest encoding: all fields present, the longest payload, the most padding. -/
theorem encodePacket_length {filler : Nat → UInt8} {p : BitchatPacket} {addPadding : Bool}
    {encoded : Bytes} (written : encodePacket filler p addPadding = .ok encoded) :
    encoded.length ≤ 65884 := by
  rw [encodePacket_eq, Except.ok.injEq] at written
  have size := wire_length p
  have payload := p.payload_size
  have limit : expectedUnpaddedSize p.flags p.payload.length ≤ 65629 := by
    simp only [expectedUnpaddedSize, fixedHeaderSize, senderIdSize, recipientIdSize, signatureSize]
    split <;> split <;> omega
  cases addPadding with
  | false =>
    rw [← written, if_neg (by simp), size]
    omega
  | true =>
    obtain ⟨pad, same, padding⟩ := padPacketData_eq filler (wireHeader p ++ wireBody p)
    have most : pad.length ≤ 255 := padding.length_le
    rw [← written, if_pos rfl, same, List.length_append, size]
    omega

section Payload
variable {fragmentId data : Bytes} {index total type : Nat}

/-- The numbers behind the fragment id. -/
def fragmentNumbers (index total type : Nat) : Bytes :=
  [(2, index), (2, total), (1, type)].flatMap fun f => toBE f.1 f.2

theorem fragmentNumbers_length (index total type : Nat) : (fragmentNumbers index total type).length = 5 := by
  simp [fragmentNumbers]

variable (idSize : fragmentId.length = fragmentIdSize) (index_lt : index < total)
  (total_le : total ≤ maxFragmentsPerAssembly) (type_le : type ≤ 255)
include index_lt total_le type_le

theorem fragmentNumbers_fit : ∀ f ∈ [(2, index), (2, total), (1, type)], f.2 < 256 ^ f.1 := by
  simp only [maxFragmentsPerAssembly] at total_le
  simp only [List.mem_cons, List.not_mem_nil, or_false]
  rintro f (rfl | rfl | rfl) <;> dsimp only <;> omega

include idSize

theorem createFragmentPayload_eq : createFragmentPayload fragmentId index total type data =
    .ok (fragmentId ++ fragmentNumbers index total type ++ data) := by
  have small : total ≤ 0xFFFF := by simp only [maxFragmentsPerAssembly] at total_le; omega
  unfold createFragmentPayload
  rw [if_neg (not_not.mpr idSize), if_neg (by omega), if_neg (by omega), if_neg (by omega),
    if_neg (by omega), if_neg (by omega), fragmentHeader,
    packBE_eq_some (fragmentNumbers_fit index_lt total_le type_le)]
  rfl

theorem parseFragmentPayload_eq (data : Bytes) :
    parseFragmentPayload (fragmentId ++ fragmentNumbers index total type ++ data) =
      .ok ⟨fragmentId, index, total, type, data⟩ := by
  have size := fragmentNumbers_length index total type
  have front : (fragmentId ++ fragmentNumbers index total type).length = fragmentHeaderSize := by
    rw [List.length_append, idSize, size]
    rfl
  have header : slice (fragmentId ++ (fragmentNumbers index total type ++ data)) fragmentIdSize
      fragmentHeaderSize = fragmentNumbers index total type :=
    slice_append _ _ _ idSize.symm (by rw [size]; rfl)
  have fields := unpackBE_pack (fragmentNumbers_fit index_lt total_le type_le) []
  rw [List.append_nil] at fields
  have numbers : unpackBE [2, 2, 1] (fragmentNumbers index total type) = [index, total, type] :=
    fields
  unfold parseFragmentPayload
  rw [if_neg (by rw [List.length_append, front]; omega), List.append_assoc, header, numbers]
  simp only
  rw [if_neg (by omega), if_neg (by omega), if_neg (by omega), List.take_left' idSize,
    ← List.append_assoc, List.drop_left' front]

end Payload

/-- One chunk's fragment packet, and what a reassembler reads from it. -/
structure Carries (senderId fragmentId : Bytes) (type total index : Nat) (chunk : Bytes)
    (f : BitchatPacket) : Prop where
  version : f.version = currentProtocolVersion
  senderId : f.senderId = senderId
  fields : FragmentReassembler.readFragmentPacket f = .ok ⟨fragmentId, index, total, type, chunk⟩
  wire : (wireHeader f ++ wireBody f).length = minimumPacketSize + fragmentHeaderSize + chunk.length

theorem makeFragment_eq {senderId fragmentId chunk : Bytes} {type total index : Nat}
    {ttl timestamp : Int} (sender : senderId.length = senderIdSize)
    (idSize : fragmentId.length = fragmentIdSize) (index_lt : index < total) (several : 1 < total)
    (total_le : total ≤ maxFragmentsPerAssembly) (type_le : type ≤ 255)
    (short : chunk.length ≤ fragmentChunkSize) (ttl_byte : 0 ≤ ttl ∧ ttl ≤ 255)
    (timestamp_word : 0 ≤ timestamp ∧ timestamp ≤ 0xFFFFFFFFFFFFFFFF) :
    ∃ f, makeFragment senderId fragmentId type total ttl timestamp (chunk, index) = .ok f ∧
      Carries senderId fragmentId type total index chunk f := by
  have size : (fragmentId ++ fragmentNumbers index total type ++ chunk).length =
      fragmentHeaderSize + chunk.length := by
    simp only [List.length_append, idSize, fragmentNumbers_length]
    rfl
  have small : chunk.length ≤ 150 := short
  have payload_size : (fragmentId ++ fragmentNumbers index total type ++ chunk).length ≤ 65535 := by
    rw [size, fragmentHeaderSize]
    omega
  have ttlCast : (ttl.toNat : Int) = ttl := Int.toNat_of_nonneg ttl_byte.1
  have timestampCast : (timestamp.toNat : Int) = timestamp := Int.toNat_of_nonneg timestamp_word.1
  have ttl_nat : ttl.toNat ≤ 255 := by omega
  have timestamp_nat : timestamp.toNat ≤ 0xFFFFFFFFFFFFFFFF := by omega
  let f : BitchatPacket := {
    version := currentProtocolVersion, messageType := fragmentType index total, ttl := ttl.toNat
    timestamp := timestamp.toNat, flags := 0, senderId := senderId, recipientId := none
    payload := fragmentId ++ fragmentNumbers index total type ++ chunk, signature := none
    version_le := by decide
    ttl_le := ttl_nat
    timestamp_le := timestamp_nat
    flags_le := by decide
    senderId_size := sender
    recipientId_size := by simp
    recipientId_flag := rfl
    payload_size := payload_size
    signature_size := by simp
    signature_flag := rfl }
  have made := f.make_fields
  simp only [f, ttlCast, timestampCast] at made
  refine ⟨f, ?_, rfl, rfl, ?_, ?_⟩
  · simp only [makeFragment, createFragmentPayload_eq idSize index_lt total_le type_le]
    exact made
  · have parsed := parseFragmentPayload_eq idSize index_lt total_le type_le chunk
    simp only [FragmentReassembler.readFragmentPacket, f, parsed, fragmentType,
      FragmentReassembler.checkPosition]
    by_cases first : index = 0
    · have middle : ¬ 0 = total - 1 := by omega
      simp [first, middle, FragmentReassembler.isFragmentType]
    · by_cases last : index = total - 1
      · have inner : ¬ index < total - 1 := by omega
        rw [last] at first inner
        simp [first, last, FragmentReassembler.isFragmentType]
      · simp [first, last, FragmentReassembler.isFragmentType]
  · rw [wire_length]
    simp only [f, size]
    simp [expectedUnpaddedSize, hasFlag, minimumPacketSize, Nat.add_assoc]

/-- A fragment packet fits the threshold, padded or not, and decodes to itself. -/
theorem Carries.fits {senderId fragmentId chunk : Bytes} {type total index : Nat}
    {f : BitchatPacket} (carries : Carries senderId fragmentId type total index chunk f)
    (short : chunk.length ≤ fragmentChunkSize) (filler : Nat → UInt8) (addPadding : Bool) :
    ∃ wire, encodePacket filler f addPadding = .ok wire ∧ wire.length ≤ fragmentationThreshold ∧
      decodePacket wire = .ok f := by
  have round := decodePacket_encodePacket filler f carries.version addPadding
  have size := carries.wire
  simp only [fragmentChunkSize] at short
  simp only [minimumPacketSize, fixedHeaderSize, senderIdSize, fragmentHeaderSize] at size
  rw [encodePacket_eq] at round
  refine ⟨_, encodePacket_eq f filler addPadding, ?_, round⟩
  simp only [fragmentationThreshold]
  cases addPadding with
  | false =>
    rw [if_neg (by simp)]
    omega
  | true =>
    obtain ⟨pad, same, padding⟩ := padPacketData_eq filler (wireHeader f ++ wireBody f)
    have most : pad.length ≤ 255 := padding.length_le
    rw [if_pos rfl, same, List.length_append]
    omega

theorem mapM_ok {ε α β : Type*} {f : α → Except ε β} {l : List α}
    (each : ∀ x ∈ l, ∃ y, f x = .ok y) :
    ∃ ys, l.mapM f = .ok ys ∧ List.Forall₂ (fun x y => f x = .ok y) l ys := by
  induction l with
  | nil => exact ⟨[], rfl, .nil⟩
  | cons x rest ih =>
    obtain ⟨y, hy⟩ := each x List.mem_cons_self
    obtain ⟨ys, hys, all⟩ := ih fun z hz => each z (List.mem_cons_of_mem _ hz)
    refine ⟨y :: ys, ?_, .cons hy all⟩
    rw [List.mapM_cons, hy, hys]
    rfl

end Bitchat.Protocol
