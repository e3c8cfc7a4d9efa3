import Bitchat.Data.Bytes
import Mathlib.Data.List.Infix

/-! The frames of packets in a TCP stream. A framer collects the bytes it is fed and returns
the payloads of the frames that have arrived; where the stream was cut does not matter. -/
namespace Bitchat.Lan
open Bytes

def frameMagic : Bytes := [0x42, 0x43, 0x01, 0x00]
def headerSize : Nat := 8
def maxFrameSize : Nat := 65536

inductive FramingError where
  | payloadTooLarge (length limit : Nat)
  | invalidMagic (magic : Bytes)
  | frameTooLarge (length limit : Nat)
deriving DecidableEq

/-- The bytes of a frame. -/
def frame (payload : Bytes) : Bytes := frameMagic ++ (toBE 4 payload.length ++ payload)

def encodeFrame (payload : Bytes) : Except FramingError Bytes :=
  if maxFrameSize < payload.length then .error (.payloadTooLarge payload.length maxFrameSize)
  else .ok (frame payload)

structure StreamFramer where
  maxFrameSize : Nat := Lan.maxFrameSize
  buffer : Bytes := []
deriving DecidableEq

namespace StreamFramer

def bufferedBytes (s : StreamFramer) : Nat := s.buffer.length

/-- The loop of `feed`, which has extracted some frames so far. -/
def extract (limit : Nat) (buffer : Bytes) (frames : List Bytes) :
    Except FramingError (List Bytes) × Bytes :=
  if buffer.length < headerSize then (.ok frames, buffer)
  else if buffer.take 4 ≠ frameMagic then (.error (.invalidMagic (buffer.take 4)), buffer)
  else
    let payloadLength := ofBE (slice buffer 4 8)
    if limit < payloadLength then (.error (.frameTooLarge payloadLength limit), buffer)
    else
      let totalFrameLen := headerSize + payloadLength
      if buffer.length < totalFrameLen then (.ok frames, buffer)
      else extract limit (buffer.drop totalFrameLen) (frames ++ [slice buffer headerSize totalFrameLen])
termination_by buffer.length
decreasing_by
  simp only [List.length_drop, headerSize] at *
  omega

/-- The payloads that are complete with this chunk. Where it raises, those that were extracted
before are lost. -/
def feed (chunk : Bytes) (s : StreamFramer) : Except FramingError (List Bytes) × StreamFramer :=
  let (frames, buffer) := extract s.maxFrameSize (s.buffer ++ chunk) []
  (frames, { s with buffer })

/-- Successive calls, up to the first that raises. -/
def feedAll : List Bytes → StreamFramer → Except FramingError (List (List Bytes)) × StreamFramer
  | [], s => (.ok [], s)
  | chunk :: chunks, s =>
    match s.feed chunk with
    | (.error e, s) => (.error e, s)
    | (.ok frames, s) =>
      match feedAll chunks s with
      | (.error e, s) => (.error e, s)
      | (.ok rest, s) => (.ok (frames :: rest), s)

end StreamFramer

section Frames
variable {payload data tail buffer more : Bytes} {limit : Nat} {frames payloads : List Bytes}

theorem encodeFrame_eq_ok :
    encodeFrame payload = .ok data ↔ payload.length ≤ maxFrameSize ∧ data = frame payload := by
  unfold encodeFrame
  split
  · next large => simp [large]
  · next small => simp [not_lt.mp small, eq_comm]

theorem frame_length (payload : Bytes) : (frame payload).length = headerSize + payload.length := by
  simp [frame, frameMagic, headerSize]
  omega

theorem header_append (long : headerSize ≤ buffer.length) (more : Bytes) : headerSize ≤ (buffer ++ more).length ∧
    (buffer ++ more).take 4 = buffer.take 4 ∧ slice (buffer ++ more) 4 8 = slice buffer 4 8 := by
  rw [headerSize] at long ⊢
  refine ⟨by simp; omega, List.take_append_of_le_length (by omega), slice_append_left _ _ (by omega)⟩

/-- A frame whose header has arrived shows its magic and the length of its payload. -/
theorem frame_header (fits : payload.length < 256 ^ 4) (arrived : headerSize ≤ buffer.length)
    (cut : buffer <+: frame payload ++ more) :
    buffer.take 4 = frameMagic ∧ ofBE (slice buffer 4 8) = payload.length := by
  obtain ⟨rest, same⟩ := cut
  obtain ⟨-, magic, length⟩ := header_append arrived rest
  rw [← magic, ← length, same, frame, List.append_assoc, List.append_assoc]
  constructor
  · exact List.take_left' rfl
  · have field : slice (frameMagic ++ (toBE 4 payload.length ++ (payload ++ more))) 4 8 =
        toBE 4 payload.length := slice_append _ _ _ rfl (by simp)
    rw [field, ofBE_toBE fits]

namespace StreamFramer

theorem extract_short (short : buffer.length < headerSize) :
    extract limit buffer frames = (.ok frames, buffer) := by
  rw [extract, if_pos short]

/-- What arrives later does not change what was extracted before. -/
theorem extract_append (limit : Nat) (buffer more : Bytes) (frames : List Bytes) :
    extract limit (buffer ++ more) frames =
    match extract limit buffer frames with
    | (.ok frames, rest) => extract limit (rest ++ more) frames
    | (.error e, rest) => (.error e, rest ++ more) := by
  fun_induction extract limit buffer frames with
  | case1 buffer frames short => rfl
  | case2 buffer frames long magic =>
    obtain ⟨long, magic', -⟩ := header_append (not_lt.mp long) more
    rw [extract, if_neg (not_lt.mpr long), magic', if_pos magic]
  | case3 buffer frames long magic payloadLength large =>
    obtain ⟨long, magic', length⟩ := header_append (not_lt.mp long) more
    rw [extract, if_neg (not_lt.mpr long), magic', if_neg magic]
    simp only [length]
    exact if_pos large
  | case4 buffer frames long magic payloadLength small total incomplete => rfl
  | case5 buffer frames long magic payloadLength small total complete ih =>
    obtain ⟨long, magic', length⟩ := header_append (not_lt.mp long) more
    rw [not_lt] at complete
    have complete' : ¬ (buffer ++ more).length < total := by
      rw [List.length_append]
      omega
    rw [extract, if_neg (not_lt.mpr long), magic', if_neg magic]
    simp only [length]
    rw [if_neg small, if_neg complete', List.drop_append_of_le_length complete,
      slice_append_left _ _ complete]
    exact ih

/-- Frames that were extracted before stay in front. -/
theorem extract_acc (limit : Nat) (buffer : Bytes) (payloads frames : List Bytes) :
    extract limit buffer (payloads ++ frames) =
    match extract limit buffer frames with
    | (.ok frames, rest) => (.ok (payloads ++ frames), rest)
    | (.error e, rest) => (.error e, rest) := by
  fun_induction extract limit buffer frames with
  | case1 buffer frames short => rw [extract, if_pos short]
  | case2 buffer frames long magic => rw [extract, if_neg long, if_pos magic]
  | case3 buffer frames long magic payloadLength large =>
    rw [extract, if_neg long, if_neg magic]
    exact if_pos large
  | case4 buffer frames long magic payloadLength small total incomplete =>
    rw [extract, if_neg long, if_neg magic]
    exact (if_neg small).trans (if_pos incomplete)
  | case5 buffer frames long magic payloadLength small total complete ih =>
    rw [extract, if_neg long, if_neg magic]
    refine (if_neg small).trans ((if_neg complete).trans ?_)
    rw [List.append_assoc]
    exact ih

/-- What the loop leaves is shorter than a frame of the largest size. -/
theorem extract_rest {rest : Bytes} (done : extract limit buffer frames = (.ok payloads, rest)) :
    rest.length < headerSize + limit := by
  fun_induction extract limit buffer frames with
  | case1 buffer frames short =>
    obtain ⟨-, rfl⟩ := Prod.mk.inj done
    omega
  | case2 | case3 => cases done
  | case4 buffer frames long magic payloadLength small total incomplete =>
    obtain ⟨-, rfl⟩ := Prod.mk.inj done
    exact incomplete.trans_le (Nat.add_le_add_left (not_lt.mp small) _)
  | case5 buffer frames long magic payloadLength small total complete ih => exact ih done

/-- A frame in front is extracted. -/
theorem extract_frame (fits : payload.length ≤ limit) (packs : payload.length < 256 ^ 4) :
    extract limit (frame payload ++ more) frames = extract limit more (frames ++ [payload]) := by
  have long : headerSize ≤ (frame payload ++ more).length := by
    rw [List.length_append, frame_length]
    omega
  obtain ⟨magic, length⟩ := frame_header packs long (List.prefix_refl _)
  rw [extract, if_neg (not_lt.mpr long), magic, if_neg (not_not_intro rfl)]
  simp only [length]
  have complete : ¬ (frame payload ++ more).length < headerSize + payload.length := by
    rw [List.length_append, frame_length]
    omega
  have field : slice (frame payload ++ more) headerSize (headerSize + payload.length) = payload := by
    rw [frame, ← List.append_assoc, List.append_assoc]
    exact slice_append (frameMagic ++ toBE 4 payload.length) payload more (by simp [frameMagic, headerSize]) rfl
  rw [if_neg (not_lt.mpr fits), if_neg complete, field, ← frame_length, List.drop_left]

/-- A frame that has not fully arrived waits. -/
theorem extract_partial (fits : payload.length ≤ limit) (packs : payload.length < 256 ^ 4)
    (cut : tail <+: frame payload) (short : tail.length < (frame payload).length) :
    extract limit tail frames = (.ok frames, tail) := by
  rw [extract]
  by_cases arrived : tail.length < headerSize
  · rw [if_pos arrived]
  · obtain ⟨magic, length⟩ := frame_header packs (not_lt.mp arrived)
      (cut.trans (List.prefix_append _ []))
    rw [if_neg arrived, magic, if_neg (not_not_intro rfl)]
    simp only [length]
    rw [if_neg (not_lt.mpr fits), if_pos (frame_length payload ▸ short)]

/-- After a call nothing more can be extracted. -/
theorem extract_drained {rest : Bytes} (done : extract limit buffer frames = (.ok payloads, rest)) :
    extract limit rest [] = (.ok [], rest) := by
  have again := extract_append limit buffer [] frames
  rw [done, List.append_nil, done] at again
  simp only [List.append_nil] at again
  have split := extract_acc limit rest payloads []
  rw [List.append_nil, ← again] at split
  split at split
  · next later left left' =>
    obtain ⟨same, rfl⟩ := Prod.mk.inj split
    rw [left', List.self_eq_append_right.mp (Except.ok.inj same)]
  · cases split

/-- Feeding a stream in chunks extracts what the whole stream gives. -/
theorem feedAll_eq {chunks : List Bytes} {s : StreamFramer} {rest : Bytes}
    (drained : extract s.maxFrameSize s.buffer [] = (.ok [], s.buffer))
    (whole : extract s.maxFrameSize (s.buffer ++ chunks.flatten) [] = (.ok payloads, rest)) :
    ∃ returned, feedAll chunks s = (.ok returned, { s with buffer := rest }) ∧
      returned.flatten = payloads := by
  induction chunks generalizing s payloads with
  | nil =>
    rw [List.flatten_nil, List.append_nil, drained] at whole
    obtain ⟨same, rfl⟩ := Prod.mk.inj whole
    exact ⟨[], rfl, Except.ok.inj same⟩
  | cons chunk chunks ih =>
    rw [List.flatten_cons, ← List.append_assoc, extract_append] at whole
    cases first : extract s.maxFrameSize (s.buffer ++ chunk) [] with
    | mk result left =>
      cases result with
      | error e =>
        rw [first] at whole
        cases whole
      | ok extracted =>
        have later := extract_acc s.maxFrameSize (left ++ chunks.flatten) extracted []
        rw [first] at whole
        simp only at whole
        rw [List.append_nil, whole] at later
        split at later
        · next remaining rest' done =>
          obtain ⟨same, rfl⟩ := Prod.mk.inj later
          obtain ⟨returned, fed, flat⟩ := ih (s := { s with buffer := left }) (extract_drained first) done
          refine ⟨extracted :: returned, ?_, ?_⟩
          · have fed' : s.feed chunk = (.ok extracted, { s with buffer := left }) := by
              rw [feed, first]
            rw [feedAll, fed']
            simp only [fed]
          · rw [List.flatten_cons, flat]
            exact (Except.ok.inj same).symm
        · cases later

theorem extract_frames (fits : ∀ p ∈ payloads, p.length ≤ limit ∧ p.length < 256 ^ 4) :
    extract limit ((payloads.map frame).flatten ++ tail) frames =
      extract limit tail (frames ++ payloads) := by
  induction payloads generalizing frames with
  | nil => simp
  | cons payload payloads ih =>
    obtain ⟨small, packs⟩ := fits payload List.mem_cons_self
    rw [List.map_cons, List.flatten_cons, List.append_assoc, extract_frame small packs,
      ih fun p member => fits p (List.mem_cons_of_mem _ member), List.append_assoc,
      List.singleton_append]

end StreamFramer

/-- The first `k` frames have fully arrived, and the rest of what was received belongs to the
next one. -/
structure Arrived (frames : List Bytes) (received : Bytes) (k : Nat) (tail : Bytes) : Prop where
  received_eq : received = (frames.take k).flatten ++ tail
  next : tail <+: (frames[k]?).getD []
  incomplete : ∀ frame, frames[k]? = some frame → tail.length < frame.length

theorem arrived (received : Bytes) (cut : received <+: frames.flatten) :
    ∃ k tail, Arrived frames received k tail := by
  induction frames generalizing received with
  | nil => exact ⟨0, [], by simpa using cut, by simp, by simp⟩
  | cons f frames ih =>
    rw [List.flatten_cons] at cut
    by_cases short : received.length < f.length
    · refine ⟨0, received, rfl, ?_, ?_⟩
      · exact List.prefix_of_prefix_length_le cut (List.prefix_append _ _) short.le
      · intro frame found
        rw [List.getElem?_cons_zero, Option.some.injEq] at found
        exact found ▸ short
    · obtain ⟨rest, rfl⟩ := List.prefix_of_prefix_length_le (List.prefix_append _ _) cut
        (not_lt.mp short)
      obtain ⟨k, tail, later⟩ := ih rest ((List.prefix_append_right_inj f).mp cut)
      exact ⟨k + 1, tail, by simp [later.received_eq], by simpa using later.next,
        by simpa using later.incomplete⟩

/-- The frames that have arrived are extracted, the next one waits. -/
theorem extract_arrived {limit k : Nat} {payloads : List Bytes} {received tail : Bytes}
    (fits : ∀ p ∈ payloads, p.length ≤ limit ∧ p.length < 256 ^ 4)
    (here : Arrived (payloads.map frame) received k tail) :
    StreamFramer.extract limit received [] = (.ok (payloads.take k), tail) := by
  have waits : ∀ extracted, StreamFramer.extract limit tail extracted = (.ok extracted, tail) := by
    intro extracted
    cases found : payloads[k]? with
    | none =>
      have empty : tail = [] := by simpa [found] using here.next
      subst empty
      exact StreamFramer.extract_short (by decide)
    | some payload =>
      have same : (payloads.map frame)[k]? = some (frame payload) := by simp [found]
      obtain ⟨small, fit⟩ := fits payload (List.mem_of_getElem? found)
      exact StreamFramer.extract_partial small fit (by simpa [same] using here.next)
        (here.incomplete _ same)
  rw [here.received_eq, ← List.map_take,
    StreamFramer.extract_frames fun p member => fits p (List.mem_of_mem_take member),
    List.nil_append, waits]

theorem encoded_frames (encoded : payloads.mapM encodeFrame = .ok frames) :
    frames = payloads.map frame ∧ ∀ p ∈ payloads, p.length ≤ maxFrameSize := by
  induction payloads generalizing frames with
  | nil => exact ⟨(Except.ok.inj encoded).symm, by simp⟩
  | cons payload payloads ih =>
    rw [List.mapM_cons] at encoded
    cases first : encodeFrame payload with
    | error e => simp [first, bind, Except.bind] at encoded
    | ok data =>
      cases others : payloads.mapM encodeFrame with
      | error e => simp [first, others, bind, Except.bind] at encoded
      | ok rest =>
        obtain ⟨small, rfl⟩ := encodeFrame_eq_ok.mp first
        obtain ⟨rfl, fit⟩ := ih others
        simp only [first, others, bind, Except.bind, pure, Except.pure, Except.ok.injEq] at encoded
        exact ⟨encoded.symm, List.forall_mem_cons.mpr ⟨small, fit⟩⟩

theorem feed_bound {s t : StreamFramer} {chunk : Bytes} (fed : s.feed chunk = (.ok frames, t)) :
    t.bufferedBytes < headerSize + s.maxFrameSize := by
  rw [StreamFramer.feed] at fed
  obtain ⟨done, rfl⟩ := Prod.mk.inj fed
  exact StreamFramer.extract_rest (Prod.ext done rfl)

/-- However a stream of frames is cut, a framer returns the payloads of those that have arrived
and keeps the rest, which is shorter than a frame of the largest size. -/
theorem framing_round_trip {limit : Nat} {payloads frames chunks : List Bytes}
    (fits : ∀ p ∈ payloads, p.length ≤ limit) (encoded : payloads.mapM encodeFrame = .ok frames)
    (cut : chunks.flatten <+: frames.flatten) :
    (∃ k tail, Arrived frames chunks.flatten k tail ∧ ∃ returned,
      StreamFramer.feedAll chunks { maxFrameSize := limit } =
        (.ok returned, { maxFrameSize := limit, buffer := tail }) ∧
      returned.flatten = payloads.take k) ∧
    ∀ (s : StreamFramer) chunk extracted t, s.feed chunk = (.ok extracted, t) →
      t.bufferedBytes < headerSize + s.maxFrameSize := by
  refine ⟨?_, fun s chunk extracted t fed => feed_bound fed⟩
  obtain ⟨rfl, encodable⟩ := encoded_frames encoded
  have packs : ∀ p ∈ payloads, p.length ≤ limit ∧ p.length < 256 ^ 4 := fun p member =>
    ⟨fits p member, (encodable p member).trans_lt (by decide)⟩
  obtain ⟨k, tail, here⟩ := arrived chunks.flatten cut
  have whole := extract_arrived packs here
  have drained : StreamFramer.extract limit [] [] = (.ok [], []) :=
    StreamFramer.extract_short (by decide)
  exact ⟨k, tail, here, StreamFramer.feedAll_eq (s := { maxFrameSize := limit }) drained whole⟩

/-- Two frames, cut within the first magic and before the end of the second payload, which is
itself the magic. -/
def halves : List Bytes :=
  [(frame [7]).take 3, [], (frame [7]).drop 3 ++ (frame frameMagic).take 9]

theorem halves_arrive : ∃ k tail, Arrived [frame [7], frame frameMagic] halves.flatten k tail ∧
    ∃ returned, StreamFramer.feedAll halves { maxFrameSize := 4 } =
      (.ok returned, { maxFrameSize := 4, buffer := tail }) ∧
      returned.flatten = [[7], frameMagic].take k := by
  have fits : ∀ p ∈ [[7], frameMagic], p.length ≤ 4 := by decide
  exact (framing_round_trip fits rfl ⟨(frame frameMagic).drop 9, rfl⟩).1

end Frames
end Bitchat.Lan
