import Bitchat.Lan.PacketLink

/-! The read loop of a connection, when the stream turns bad. A framer that meets a malformed header
raises, and what it extracted in the same call is lost. -/
namespace Bitchat.Lan
open Protocol Bytes

/-- What a read of the stream returns; no bytes mean its end. -/
inductive ReadResult where
  | chunk (bytes : Bytes)
  | timeout
  | connectionLost

/-- The reading side of a connection, and the packets handed to `on_packet_received`. -/
structure LANReader where
  connection : LANConnection
  framer : StreamFramer := {}
  delivered : List BitchatPacket := []

namespace LANReader

def close (r : LANReader) : LANReader :=
  if r.connection.isConnected then
    { r with
      connection := { r.connection with isConnected := false, ready := false }
      framer := { r.framer with buffer := [] } }
  else r

/-- A payload that does not decode is passed over. -/
def receive (r : LANReader) (rawPacket : Bytes) : LANReader :=
  match decodePacket rawPacket with
  | .ok packet => if r.connection.wired then { r with delivered := r.delivered ++ [packet] } else r
  | .error _ => r

/-- `_read_loop` over the results of its reads. Where they end it waits for the next. -/
def readLoop (r : LANReader) : List ReadResult → LANReader
  | [] => r
  | read :: reads =>
    if ¬ r.connection.isConnected then r
    else
      match read with
      | .timeout | .connectionLost => r.close
      | .chunk bytes =>
        if bytes = [] then r.close
        else
          match r.framer.feed bytes with
          | (.error _, framer) => { r with framer }.close
          | (.ok payloads, framer) => (payloads.foldl receive { r with framer }).readLoop reads

end LANReader

/-- The payloads that successive calls of `feed` return until one raises, and what that one raises. -/
def StreamFramer.returned (s : StreamFramer) : List Bytes → List Bytes × Option FramingError
  | [] => ([], none)
  | chunk :: chunks =>
    match s.feed chunk with
    | (.error e, _) => ([], some e)
    | (.ok payloads, s) => (payloads ++ (s.returned chunks).1, (s.returned chunks).2)

/-- Eight bytes that no frame begins with. -/
def MalformedHeader (limit : Nat) (header : Bytes) : Prop :=
  header.length = headerSize ∧ (header.take 4 ≠ frameMagic ∨ limit < ofBE (slice header 4 8))

/-- The stream of some frames, cut behind them before the next eight bytes are complete. -/
def CutBehind (payloads chunks : List Bytes) : Prop :=
  ∃ earlier, earlier <+: chunks ∧ (payloads.map frame).flatten.length ≤ earlier.flatten.length ∧
    earlier.flatten.length < (payloads.map frame).flatten.length + headerSize

section Extraction
variable {limit : Nat} {payloads chunks : List Bytes} {header more received : Bytes}

/-- A malformed header is noticed as soon as it is complete. -/
theorem extract_malformed (bad : MalformedHeader limit header) (more : Bytes) (frames : List Bytes) :
    ∃ e, StreamFramer.extract limit (header ++ more) frames = (.error e, header ++ more) := by
  obtain ⟨size, wrong⟩ := bad
  obtain ⟨long, magic, length⟩ := header_append size.ge more
  rw [StreamFramer.extract, if_neg (not_lt.mpr long), magic]
  by_cases genuine : header.take 4 = frameMagic
  · rw [if_neg (not_not_intro genuine)]
    simp only [length]
    rw [if_pos (wrong.resolve_left (not_not_intro genuine))]
    exact ⟨_, rfl⟩
  · rw [if_pos genuine]
    exact ⟨_, rfl⟩

/-- Until the malformed header is complete, the frames that have arrived are extracted. -/
theorem extract_before (fits : ∀ p ∈ payloads, p.length ≤ limit ∧ p.length < 256 ^ 4)
    (cut : received <+: (payloads.map frame).flatten ++ (header ++ more))
    (short : received.length < (payloads.map frame).flatten.length + headerSize) :
    ∃ k rest, StreamFramer.extract limit received [] = (.ok (payloads.take k), rest) ∧
      (payloads.take k = payloads ↔ (payloads.map frame).flatten.length ≤ received.length) := by
  by_cases all : (payloads.map frame).flatten.length ≤ received.length
  · obtain ⟨tail, rfl⟩ := List.prefix_of_prefix_length_le (List.prefix_append _ _) cut all
    rw [List.length_append] at short
    refine ⟨payloads.length, tail, ?_, by simp⟩
    rw [StreamFramer.extract_frames fits, StreamFramer.extract_short (by omega), List.take_length,
      List.nil_append]
  · have within := List.prefix_of_prefix_length_le cut (List.prefix_append _ _) (not_le.mp all).le
    obtain ⟨k, tail, here⟩ := arrived received within
    refine ⟨k, tail, extract_arrived fits here, iff_of_false (fun whole => all ?_) all⟩
    rw [here.received_eq, ← List.map_take, whole, List.length_append]
    exact Nat.le_add_right _ _

/-- The calls return what the stream up to some chunk holds, and the next chunk, if there is one,
makes the framer raise. -/
theorem returned_eq {s : StreamFramer} {before : List Bytes} (chunks : List Bytes)
    (sofar : StreamFramer.extract s.maxFrameSize received [] = (.ok before, s.buffer)) :
    ∃ earlier rest, earlier <+: chunks ∧
      StreamFramer.extract s.maxFrameSize (received ++ earlier.flatten) [] =
        (.ok (before ++ (s.returned chunks).1), rest) ∧
      ((s.returned chunks).2 = none ∧ earlier = chunks ∨
        ∃ chunk e rest', earlier ++ [chunk] <+: chunks ∧ (s.returned chunks).2 = some e ∧
          StreamFramer.extract s.maxFrameSize (received ++ (earlier ++ [chunk]).flatten) [] =
            (.error e, rest')) := by
  induction chunks generalizing s received before with
  | nil =>
    refine ⟨[], s.buffer, List.prefix_refl _, ?_, Or.inl ⟨rfl, rfl⟩⟩
    rw [List.flatten_nil, List.append_nil, sofar, StreamFramer.returned, List.append_nil]
  | cons chunk chunks ih =>
    have next := StreamFramer.extract_append s.maxFrameSize received chunk []
    rw [sofar] at next
    have acc := StreamFramer.extract_acc s.maxFrameSize (s.buffer ++ chunk) before []
    rw [List.append_nil] at acc
    simp only [acc] at next
    cases fed : StreamFramer.extract s.maxFrameSize (s.buffer ++ chunk) [] with
    | mk result left =>
      rw [fed] at next
      cases result with
      | error e =>
        have fed' : s.feed chunk = (.error e, { s with buffer := left }) := by rw [StreamFramer.feed, fed]
        have raised : s.returned (chunk :: chunks) = ([], some e) := by rw [StreamFramer.returned, fed']
        refine ⟨[], s.buffer, List.nil_prefix, ?_, Or.inr ⟨chunk, e, left, ?_, ?_, ?_⟩⟩
        · rw [List.flatten_nil, List.append_nil, sofar, raised, List.append_nil]
        · exact List.prefix_append [chunk] chunks
        · rw [raised]
        · simpa using next
      | ok extracted =>
        have fed' : s.feed chunk = (.ok extracted, { s with buffer := left }) := by rw [StreamFramer.feed, fed]
        obtain ⟨earlier, rest, within, whole, ends⟩ :=
          ih (s := { s with buffer := left }) next
        have later : s.returned (chunk :: chunks) =
            (extracted ++ (StreamFramer.returned { s with buffer := left } chunks).1,
              (StreamFramer.returned { s with buffer := left } chunks).2) := by
          rw [StreamFramer.returned, fed']
        have prepend : ∀ others : List Bytes,
            received ++ (chunk :: others).flatten = received ++ chunk ++ others.flatten := by simp
        refine ⟨chunk :: earlier, rest, List.cons_prefix_cons.mpr ⟨rfl, within⟩, ?_, ?_⟩
        · rw [prepend, whole, later, List.append_assoc]
        · rw [later]
          rcases ends with ⟨quiet, rfl⟩ | ⟨chunk', e, rest', within', raised, bad⟩
          · exact Or.inl ⟨quiet, rfl⟩
          · refine Or.inr ⟨chunk', e, rest', List.cons_prefix_cons.mpr ⟨rfl, within'⟩, raised, ?_⟩
            rw [List.cons_append, prepend, bad]

/-- Once the malformed header is complete, the framer raises. -/
theorem extract_behind (fits : ∀ p ∈ payloads, p.length ≤ limit ∧ p.length < 256 ^ 4)
    (bad : MalformedHeader limit header) (cut : received <+: (payloads.map frame).flatten ++ (header ++ more))
    (long : (payloads.map frame).flatten.length + headerSize ≤ received.length) :
    ∃ e rest, StreamFramer.extract limit received [] = (.error e, rest) := by
  rw [← List.append_assoc] at cut
  have within : (payloads.map frame).flatten ++ header <+: received := by
    apply List.prefix_of_prefix_length_le (List.prefix_append _ more) cut
    rw [List.length_append, bad.1]
    exact long
  obtain ⟨tail, rfl⟩ := within
  obtain ⟨e, raised⟩ := extract_malformed bad tail payloads
  refine ⟨e, header ++ tail, ?_⟩
  rw [List.append_assoc, StreamFramer.extract_frames fits, List.nil_append, raised]

/-- The calls return the first payloads and then raise. They return all of them exactly when the
stream is cut behind them. -/
theorem returned_iff (fits : ∀ p ∈ payloads, p.length ≤ limit ∧ p.length < 256 ^ 4)
    (bad : MalformedHeader limit header)
    (whole : chunks.flatten = (payloads.map frame).flatten ++ (header ++ more)) :
    ∃ k e, StreamFramer.returned { maxFrameSize := limit } chunks = (payloads.take k, some e) ∧
      (payloads.take k = payloads ↔ CutBehind payloads chunks) := by
  have sofar : StreamFramer.extract limit [] [] = (.ok [], []) := StreamFramer.extract_short (by decide)
  have part : ∀ earlier : List Bytes, earlier <+: chunks →
      earlier.flatten <+: (payloads.map frame).flatten ++ (header ++ more) := by
    rintro earlier ⟨later, rfl⟩
    exact ⟨later.flatten, by rw [← whole, List.flatten_append]⟩
  obtain ⟨earlier, rest, within, done, ends⟩ :=
    returned_eq (s := { maxFrameSize := limit }) chunks sofar
  rw [List.nil_append, List.nil_append] at done
  have short : earlier.flatten.length < (payloads.map frame).flatten.length + headerSize := by
    by_contra long
    obtain ⟨e, rest', raised⟩ := extract_behind fits bad (part earlier within) (not_lt.mp long)
    rw [raised] at done
    cases done
  rcases ends with ⟨_, rfl⟩ | ⟨chunk, e, rest', next, raised, failed⟩
  · rw [whole, List.length_append, List.length_append, bad.1] at short
    omega
  · have long : (payloads.map frame).flatten.length + headerSize ≤ (earlier ++ [chunk]).flatten.length := by
      by_contra few
      obtain ⟨k, rest, extracted, _⟩ := extract_before fits (part _ next) (not_le.mp few)
      rw [List.nil_append, extracted] at failed
      cases failed
    obtain ⟨k, rest', extracted, full⟩ := extract_before fits (part earlier within) short
    rw [done] at extracted
    have returned := Except.ok.inj (Prod.mk.inj extracted).1
    refine ⟨k, e, Prod.ext returned raised, full.trans ⟨fun behind => ⟨earlier, within, behind, short⟩, ?_⟩⟩
    rintro ⟨other, within', behind, short'⟩
    -- a chunking cut there has not reached the chunk that raises
    rcases List.prefix_or_prefix_of_prefix within' next with before | after
    · rcases List.prefix_concat_iff.mp before with rfl | before
      · omega
      · obtain ⟨more', rfl⟩ := before
        rw [List.flatten_append, List.length_append]
        omega
    · obtain ⟨more', rfl⟩ := after
      rw [List.flatten_append, List.length_append] at short'
      omega

end Extraction

section Delivery
variable {r : LANReader} {chunks : List Bytes}

@[simp] theorem LANReader.close_delivered : r.close.delivered = r.delivered := by
  unfold close
  split <;> rfl

@[simp] theorem LANReader.close_isConnected : r.close.connection.isConnected = false := by
  unfold close
  split
  · rfl
  · next closed => simpa using closed

/-- Payloads are handed on in order, as far as they decode. -/
theorem LANReader.foldl_receive (wired : r.connection.wired = true) (payloads : List Bytes) :
    payloads.foldl receive r =
      { r with delivered := r.delivered ++ payloads.filterMap fun raw => (decodePacket raw).toOption } := by
  induction payloads generalizing r with
  | nil => simp
  | cons raw payloads ih =>
    rw [List.foldl_cons, receive]
    cases decoded : decodePacket raw with
    | error e =>
      simp only
      rw [ih wired, List.filterMap_cons, decoded]
      rfl
    | ok packet =>
      simp only [wired, if_true]
      rw [ih (r := { r with delivered := r.delivered ++ [packet] }) wired, List.filterMap_cons, decoded]
      simp [Except.toOption]

/-- The loop hands on what the framer returns, and closes the connection when the framer raises. -/
theorem LANReader.readLoop_chunks (connected : r.connection.isConnected = true)
    (wired : r.connection.wired = true) (nonempty : ∀ chunk ∈ chunks, chunk ≠ []) :
    (r.readLoop (chunks.map .chunk)).delivered =
      r.delivered ++ (r.framer.returned chunks).1.filterMap (fun raw => (decodePacket raw).toOption) ∧
    ((r.framer.returned chunks).2 ≠ none → (r.readLoop (chunks.map .chunk)).connection.isConnected = false) := by
  induction chunks generalizing r with
  | nil => simp [readLoop, StreamFramer.returned]
  | cons chunk chunks ih =>
    obtain ⟨some', nonempty⟩ := List.forall_mem_cons.mp nonempty
    rw [List.map_cons, readLoop, if_neg (not_not_intro connected)]
    simp only [if_neg some', StreamFramer.returned]
    rcases fed : r.framer.feed chunk with ⟨result, framer⟩
    cases result with
    | error e => simp
    | ok payloads =>
      simp only
      rw [LANReader.foldl_receive (r := { r with framer }) wired]
      let next : LANReader :=
        { r with framer, delivered := r.delivered ++ payloads.filterMap fun raw => (decodePacket raw).toOption }
      obtain ⟨handed, closed⟩ := ih (r := next) connected wired nonempty
      refine ⟨?_, closed⟩
      rw [handed, List.filterMap_append, List.append_assoc]

end Delivery

/-- However a stream of frames and a malformed header is cut, the framer raises in the end. All
payloads reach its caller before, and decoded `on_packet_received`, exactly when the stream is cut
behind them. -/
theorem frames_before_malformed {limit : Nat} {payloads chunks : List Bytes} {header more : Bytes}
    (fits : ∀ p ∈ payloads, p.length ≤ limit ∧ p.length < 256 ^ 4) (bad : MalformedHeader limit header)
    (whole : chunks.flatten = (payloads.map frame).flatten ++ (header ++ more)) :
    ((StreamFramer.returned { maxFrameSize := limit } chunks).1 = payloads ↔ CutBehind payloads chunks) ∧
    ∀ (connection : LANConnection) (packets : List BitchatPacket), connection.isConnected = true →
      connection.wired = true → (∀ chunk ∈ chunks, chunk ≠ []) →
      payloads.map decodePacket = packets.map .ok →
      let left := LANReader.readLoop { connection, framer := { maxFrameSize := limit } } (chunks.map .chunk)
      (left.delivered = packets ↔ CutBehind payloads chunks) ∧ left.connection.isConnected = false := by
  obtain ⟨k, e, returned, all⟩ := returned_iff fits bad whole
  refine ⟨by rw [returned]; exact all, fun connection packets connected wired nonempty decoded => ?_⟩
  obtain ⟨handed, closed⟩ := LANReader.readLoop_chunks
    (r := { connection, framer := { maxFrameSize := limit } }) connected wired nonempty
  rw [returned] at handed closed
  have some' : (payloads.take k).filterMap (fun raw => (decodePacket raw).toOption) = packets.take k := by
    have each : (payloads.take k).map decodePacket = (packets.take k).map .ok := by
      rw [List.map_take, decoded, List.map_take]
    calc (payloads.take k).filterMap (fun raw => (decodePacket raw).toOption)
        = ((payloads.take k).map decodePacket).filterMap Except.toOption := by rw [List.filterMap_map]; rfl
      _ = packets.take k := by rw [each, List.filterMap_map]; exact List.filterMap_some
  have same : payloads.length = packets.length := by simpa using congrArg List.length decoded
  refine ⟨?_, closed (by simp)⟩
  rw [handed, some', List.nil_append, ← all, List.take_eq_self_iff, List.take_eq_self_iff, same]

section Cuts

/-- A frame with a short message. -/
def noteFrame : Bytes := frame (wireHeader (.note 1 7) ++ wireBody (.note 1 7))

/-- A header without magic. -/
def noHeader : Bytes := List.replicate 8 0

theorem noHeader_malformed (limit : Nat) : MalformedHeader limit noHeader := ⟨rfl, Or.inl (by decide)⟩

/-- A frame that is read at once with a malformed header is lost. -/
theorem one_read_loses_frame : ¬ ∀ (payloads chunks : List Bytes) (header more : Bytes),
    (∀ p ∈ payloads, p.length ≤ maxFrameSize) → MalformedHeader maxFrameSize header →
    chunks.flatten = (payloads.map frame).flatten ++ (header ++ more) →
    (StreamFramer.returned {} chunks).1 = payloads := by
  intro complete
  have all := complete [[7]] [frame [7] ++ (noHeader ++ [])] noHeader [] (by decide)
    (noHeader_malformed _) (by simp)
  obtain ⟨e, raised⟩ := extract_malformed (noHeader_malformed maxFrameSize) [] [[7]]
  have lost : StreamFramer.extract maxFrameSize (frame [7] ++ (noHeader ++ [])) [] =
      (.error e, noHeader ++ []) := by
    rw [StreamFramer.extract_frame (by decide) (by decide), List.nil_append, raised]
  simp only [StreamFramer.returned, StreamFramer.feed, List.nil_append, lost] at all
  cases all

/-- Read byte by byte, the packet arrives. -/
theorem single_bytes_keep_packet :
    (LANReader.readLoop { connection := { peerAddress := [], isConnected := true, wired := true } }
      (((noteFrame ++ noHeader).map fun b => [b]).map .chunk)).delivered = [.note 1 7] := by
  have whole : ((noteFrame ++ noHeader).map fun b => [b]).flatten =
      ([wireHeader (.note 1 7) ++ wireBody (.note 1 7)].map frame).flatten ++ (noHeader ++ []) := by decide
  have decoded := decodePacket_wire (.note 1 7) rfl (Or.inl rfl : IsPadding [])
  rw [List.append_nil] at decoded
  have kept := (frames_before_malformed (by decide) (noHeader_malformed maxFrameSize) whole).2
    { peerAddress := [], isConnected := true, wired := true } [.note 1 7] rfl rfl (by decide)
    (by rw [List.map_singleton, decoded]; rfl)
  refine kept.1.mpr ⟨noteFrame.map fun b => [b], ⟨noHeader.map fun b => [b], rfl⟩, by decide, by decide⟩

end Cuts
end Bitchat.Lan
