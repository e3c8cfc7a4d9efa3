import Bitchat.Ble.Link
import Bitchat.Data.Interleaving

/-! Concurrent calls that send on one link. Their writes interleave, and the receiver puts each packet
together on its own: it hands on exactly the packets whose writes were all made, each once. -/
namespace Bitchat.Ble
open Protocol FragmentReassembler

section OneWrite
variable {lim : ReassemblyLimits} {now : Seconds} {r t : FragmentReassembler} {o : Outgoing}
  {encoded data : Bytes} {n : Nat} {received : Received}

theorem assemble_completes {key : AssemblyKey} {fields : FragmentFields} {held left : Option AssemblyState}
    (assembled : assemble lim now key fields held = (.ok (some data), left)) : left = none := by
  have spec := assemble_spec lim now key fields held
  rw [assembled] at spec
  generalize result : Except.ok (some data) = reassembled at spec
  cases spec <;> first | rfl | cases result

theorem carries_fragment {f : BitchatPacket} {senderId fragmentId chunk : Bytes} {type total index : Nat}
    (carries : Carries senderId fragmentId type total index chunk f) :
    isFragmentType f.messageType = true := by
  have fields := carries.fields
  unfold readFragmentPacket at fields
  by_contra other
  rw [if_pos other] at fields
  cases fields

/-- A packet that came whole is handed on at once. -/
theorem process_whole (decoded : decodePacket data = .ok o.packet)
    (plain : isFragmentType o.packet.messageType = false) :
    processRawBytes lim now data r = (.ok (some o.packet), r) := by
  simp only [processRawBytes, receive, decoded, plain, Bool.false_eq_true, if_false]

/-- The indices before the next one. -/
theorem lt_or_eq (n : Nat) : (fun i => i < n ∨ i = n) = fun i => i < n + 1 := by
  funext i
  exact propext ⟨fun h => by omega, fun h => by omega⟩

variable (pieces : o.Pieces encoded) (due : o.writes[n]? = some data)
  (processed : processRawBytes lim now data r = (received, t))
include pieces due processed

/-- A piece goes to the reassembler. -/
theorem process_piece : ∃ f result found,
    Carries o.senderId o.fragmentId o.packet.messageType.code o.writes.length n (chunkAt encoded n) f ∧
    Step lim r (.addFragmentPacket now f, result) t ∧ received = .ok found ∧
    ∀ full, found = some full ↔ ∃ wire, result = .ok (some wire) ∧ decodePacket wire = .ok full := by
  obtain ⟨f, decoded, carries⟩ := pieces.carries n data due
  have handled := ReceivePath.transportNotification.handle_spec lim now data r
  rw [show ReceivePath.transportNotification.handle lim now data r = (received, t) from processed] at handled
  cases handled with
  | malformed raised => simp [decoded] at raised
  | whole other plain =>
    obtain rfl := Except.ok.inj (decoded.symm.trans other)
    simp [carries_fragment carries] at plain
  | fragment other _ step handedOn =>
    obtain rfl := Except.ok.inj (decoded.symm.trans other)
    exact ⟨f, _, _, carries, step, rfl, handedOn⟩

theorem process_piece_other (room : r.assemblies.get? o.key = none → r.assemblies.size < lim.maxActiveAssemblies)
    {key : AssemblyKey} (other : key ≠ o.key) : t.assemblies.get? key = r.assemblies.get? key := by
  obtain ⟨f, result, _, carries, step, _⟩ := process_piece pieces due processed
  have performed : r.addFragmentPacket lim now f = (result, t) := step
  simp only [addFragmentPacket, carries.fields, carries.senderId] at performed
  cases held : r.assemblies.get? o.key with
  | some state =>
    have kept : (r.insertChunk lim now o.senderId ⟨o.fragmentId, n, o.writes.length,
        o.packet.messageType.code, chunkAt encoded n⟩).2.assemblies.get? key = _ :=
      insertChunk_held now o.senderId _ held other
    rwa [performed] at kept
  | none =>
    have kept : (r.insertChunk lim now o.senderId ⟨o.fragmentId, n, o.writes.length,
        o.packet.messageType.code, chunkAt encoded n⟩).2.assemblies.get? key = _ ∨ _ :=
      insertChunk_other now o.senderId _ other
    rw [performed] at kept
    exact kept.resolve_right fun full => absurd full.2 (Nat.not_le_of_lt (room held))

variable (most : 440 ≤ lim.maxFragmentsPerAssembly) (bytes : 440 * fragmentChunkSize ≤ lim.maxReassembledBytes)
  (holds : HoldsChunks o.writes.length o.packet.messageType.code (chunkAt encoded) (· < n)
    (r.assemblies.get? o.key))
include most bytes holds

/-- A piece before the last is stored, and the last one gives the packet and frees the assembly. -/
theorem process_piece_own :
    (n + 1 < o.writes.length → received = .ok none ∧ HoldsChunks o.writes.length
      o.packet.messageType.code (chunkAt encoded) (· < n + 1) (t.assemblies.get? o.key)) ∧
    (n + 1 = o.writes.length → received = .ok (some o.packet) ∧ t.assemblies.get? o.key = none) := by
  obtain ⟨f, result, found, carries, step, rfl, handedOn⟩ := process_piece pieces due processed
  have inside : n < o.writes.length := (List.getElem?_eq_some_iff.mp due).1
  have assembled := step_own step carries
  have room : o.writes.length * fragmentChunkSize ≤ lim.maxReassembledBytes :=
    (Nat.mul_le_mul_right _ pieces.few).trans bytes
  have own := assemble_own holds (fun i below => below.trans inside) inside (pieces.few.trans most)
    (fun i _ => chunkAt_length encoded i) room ⟨n, inside, Nat.lt_irrefl n⟩ assembled
  simp only [congrFun (lt_or_eq n)] at own
  constructor
  · intro more
    obtain ⟨rfl, holds'⟩ := own.1 ⟨n + 1, more, Nat.lt_irrefl (n + 1)⟩
    refine ⟨?_, holds'⟩
    cases found with
    | none => rfl
    | some full =>
      obtain ⟨wire, returned, _⟩ := (handedOn full).mp rfl
      simp at returned
  · intro last
    have returned := own.2 fun i below => by omega
    rw [pieces.joined] at returned
    subst returned
    rw [(handedOn o.packet).mpr ⟨encoded, rfl, pieces.decoded⟩]
    exact ⟨rfl, assemble_completes assembled⟩

end OneWrite

/-- How far a receiver is with a call of which it has processed `n` writes. -/
inductive Progress (o : Outgoing) (n : Nat) (held : Option AssemblyState) : Prop where
  | whole {encoded : Bytes} : o.writes = [encoded] → decodePacket encoded = .ok o.packet →
      isFragmentType o.packet.messageType = false → Progress o n held
  | pieces {encoded : Bytes} : o.Pieces encoded → (n < o.writes.length → HoldsChunks o.writes.length
      o.packet.messageType.code (chunkAt encoded) (· < n) held) → Progress o n held

/-- What a receiver holds after some writes: the calls in `order` are delivered, and the table has an
assembly for each call of which some pieces came and others did not. -/
structure Processed (outgoing : List Outgoing) (writes : List (Outgoing × Bytes))
    (order : List Outgoing) (r : FragmentReassembler) : Prop where
  progress : ∀ o ∈ outgoing, Progress o (itemsOf o writes).length (r.assemblies.get? o.key)
  underWay : ∀ key state, r.assemblies.get? key = some state → ∃ o ∈ outgoing, o.key = key ∧
    0 < (itemsOf o writes).length ∧ (itemsOf o writes).length < o.writes.length
  once : order.Nodup
  delivered : ∀ o, o ∈ order ↔ o ∈ outgoing ∧ (itemsOf o writes).length = o.writes.length

section Processing
variable {lim : ReassemblyLimits} {now : Seconds} {r t : FragmentReassembler} {o : Outgoing}
  {data : Bytes} {received : Received} {outgoing order : List Outgoing}
  {writes : List (Outgoing × Bytes)}

theorem Progress.positive {n : Nat} {held : Option AssemblyState} (progress : Progress o n held) :
    0 < o.writes.length := by
  cases progress with
  | whole same => simp [same]
  | pieces pieces => exact Nat.zero_lt_of_lt pieces.several

theorem itemsOf_length_own (o : Outgoing) (writes : List (Outgoing × Bytes)) (data : Bytes) :
    (itemsOf o (writes ++ [(o, data)])).length = (itemsOf o writes).length + 1 := by
  rw [itemsOf_append, itemsOf_own, List.length_append, List.length_singleton]

theorem itemsOf_length_other {p : Outgoing} (different : o ≠ p) (writes : List (Outgoing × Bytes))
    (data : Bytes) : (itemsOf p (writes ++ [(o, data)])).length = (itemsOf p writes).length := by
  rw [itemsOf_append, itemsOf_other different, List.append_nil]

/-- The keys of different calls differ. -/
theorem key_injective (apart : (outgoing.map Outgoing.fragmentId).Nodup) {p : Outgoing}
    (mine : o ∈ outgoing) (other : p ∈ outgoing) (same : o.key = p.key) : o = p :=
  List.inj_on_of_nodup_map apart mine other (congrArg Prod.snd same)

variable (holds : Processed outgoing writes order r) (due : o.writes[(itemsOf o writes).length]? = some data)
include holds due

theorem Processed.undelivered : o ∉ order := fun done => by
  have inside := (List.getElem?_eq_some_iff.mp due).1
  have all := ((holds.delivered o).mp done).2
  omega

variable (apart : (outgoing.map Outgoing.fragmentId).Nodup) (mine : o ∈ outgoing)
include apart mine

/-- There is room for the assembly of a call that has none. -/
theorem Processed.room (waiting : outgoing.length ≤ order.length + lim.maxActiveAssemblies)
    (absent : r.assemblies.get? o.key = none) : r.assemblies.size < lim.maxActiveAssemblies := by
  have ours : o :: order ⊆ outgoing := List.cons_subset.mpr ⟨mine, fun p done => ((holds.delivered p).mp done).1⟩
  have keysApart : ((o :: order).map Outgoing.key).Nodup :=
    (List.nodup_cons.mpr ⟨holds.undelivered due, holds.once⟩).map_on
      fun p hp q hq same => key_injective apart (ours hp) (ours hq) same
  have disjoint : ∀ key ∈ r.assemblies.keys, key ∉ (o :: order).map Outgoing.key := by
    intro key held taken
    obtain ⟨state, found⟩ := InsertionMap.contains_iff.mp (InsertionMap.mem_keys.mp held)
    obtain ⟨p, here, rfl, _, unfinished⟩ := holds.underWay key state found
    obtain ⟨q, member, same⟩ := List.mem_map.mp taken
    obtain rfl := key_injective apart (ours member) here same
    rcases List.mem_cons.mp member with rfl | done
    · simp [absent] at found
    · exact absurd ((holds.delivered q).mp done).2 unfinished.ne
  have keys : (r.assemblies.keys ++ (o :: order).map Outgoing.key).Nodup :=
    List.nodup_append'.mpr ⟨r.assemblies.nodup, keysApart, disjoint⟩
  have subset : r.assemblies.keys ++ (o :: order).map Outgoing.key ⊆ outgoing.map Outgoing.key := by
    refine List.append_subset.mpr ⟨fun key held => ?_, List.map_subset _ ours⟩
    obtain ⟨state, found⟩ := InsertionMap.contains_iff.mp (InsertionMap.mem_keys.mp held)
    obtain ⟨p, here, rfl, _⟩ := holds.underWay key state found
    exact List.mem_map_of_mem here
  have counted := (keys.subperm subset).length_le
  simp only [List.length_append, List.length_map, List.length_cons, InsertionMap.keys] at counted
  simp only [InsertionMap.size]
  omega

/-- One more write of a call is processed, and the assemblies of the others are left alone. -/
theorem Processed.advance (others : ∀ key, key ≠ o.key → t.assemblies.get? key = r.assemblies.get? key)
    (own : Progress o ((itemsOf o writes).length + 1) (t.assemblies.get? o.key))
    (stored : ∀ state, t.assemblies.get? o.key = some state →
      (itemsOf o writes).length + 1 < o.writes.length) :
    Processed outgoing (writes ++ [(o, data)])
      (if (itemsOf o writes).length + 1 = o.writes.length then order ++ [o] else order) t := by
  have fresh := holds.undelivered due
  refine ⟨fun p member => ?_, fun key state found => ?_, ?_, fun p => ?_⟩
  · by_cases same : o = p
    · subst same
      rwa [itemsOf_length_own]
    · have apartKeys : p.key ≠ o.key := fun alike => same (key_injective apart mine member alike.symm)
      rw [itemsOf_length_other same, others p.key apartKeys]
      exact holds.progress p member
  · by_cases same : key = o.key
    · subst same
      refine ⟨o, mine, rfl, ?_⟩
      rw [itemsOf_length_own]
      exact ⟨Nat.succ_pos _, stored state found⟩
    · rw [others key same] at found
      obtain ⟨p, member, rfl, some_, more⟩ := holds.underWay key state found
      have different : o ≠ p := fun alike => same (alike ▸ rfl)
      refine ⟨p, member, rfl, ?_⟩
      rw [itemsOf_length_other different]
      exact ⟨some_, more⟩
  · split
    · exact List.nodup_append'.mpr ⟨holds.once, List.nodup_singleton o, by simpa using fresh⟩
    · exact holds.once
  · by_cases same : o = p
    · subst same
      rw [itemsOf_length_own]
      split <;> simp [*]
    · rw [itemsOf_length_other same, ← holds.delivered p]
      split <;> simp [Ne.symm same]

variable (most : 440 ≤ lim.maxFragmentsPerAssembly) (bytes : 440 * fragmentChunkSize ≤ lim.maxReassembledBytes)
include most bytes

/-- The next write of some call completes its packet or gives nothing. -/
theorem Processed.step (waiting : outgoing.length ≤ order.length + lim.maxActiveAssemblies)
    (processed : processRawBytes lim now data r = (received, t)) :
    (received = .ok none ∧ Processed outgoing (writes ++ [(o, data)]) order t) ∨
    (received = .ok (some o.packet) ∧ Processed outgoing (writes ++ [(o, data)]) (order ++ [o]) t) := by
  have inside : (itemsOf o writes).length < o.writes.length := (List.getElem?_eq_some_iff.mp due).1
  cases holds.progress o mine with
  | @whole encoded only decoded plain =>
    have first : (itemsOf o writes).length = 0 := by
      rw [only, List.length_singleton] at inside
      omega
    have last : (itemsOf o writes).length + 1 = o.writes.length := by rw [first, only]; rfl
    obtain rfl : encoded = data := by simpa [only, first] using due
    rw [process_whole decoded plain] at processed
    obtain ⟨rfl, rfl⟩ := Prod.mk.inj processed
    have advanced := holds.advance due apart mine (fun _ _ => rfl) (.whole only decoded plain)
      fun state found => by
        obtain ⟨p, member, same, some_, _⟩ := holds.underWay _ _ found
        obtain rfl := key_injective apart member mine same
        omega
    rw [if_pos last] at advanced
    exact Or.inr ⟨rfl, advanced⟩
  | pieces pieces holds' =>
    have own := process_piece_own pieces due processed most bytes (holds' inside)
    have others := fun key (other : key ≠ o.key) => process_piece_other pieces due processed
      (holds.room due apart mine waiting) other
    by_cases last : (itemsOf o writes).length + 1 = o.writes.length
    · obtain ⟨rfl, gone⟩ := own.2 last
      have advanced := holds.advance due apart mine others
        (.pieces pieces fun more => absurd last more.ne) (by simp [gone])
      rw [if_pos last] at advanced
      exact Or.inr ⟨rfl, advanced⟩
    · have more : (itemsOf o writes).length + 1 < o.writes.length := by omega
      obtain ⟨rfl, stored⟩ := own.1 more
      have advanced := holds.advance due apart mine others (.pieces pieces fun _ => stored)
        fun _ _ => more
      rw [if_neg last] at advanced
      exact Or.inl ⟨rfl, advanced⟩

end Processing

def Link.outgoing (link : Link) : List Outgoing := link.calls.map SendCall.toOutgoing

/-- The writes made so far, in their order, of which the receiver has processed the first. -/
structure Accounts (link : Link) (written processed : List (Outgoing × Bytes))
    (order : List Outgoing) : Prop where
  apart : (link.outgoing.map Outgoing.fragmentId).Nodup
  woven : Interleaves Outgoing.writes written
  known : ∀ item ∈ written, item.1 ∈ link.outgoing
  position : ∀ (i : Nat) call, link.calls[i]? = some call →
    (itemsOf call.toOutgoing written).length = call.written
  fifo : ∃ pending, written = processed ++ pending ∧ pending.map Prod.snd = link.receiver.receiveQueue
  received : Processed link.outgoing processed order link.receiver.reassembler
  dispatched : link.receiver.dispatched = order.map Outgoing.packet

section Linked
variable {lim : ReassemblyLimits} {link next : Link} {event : LinkEvent} {o : Outgoing}
  {written processed : List (Outgoing × Bytes)} {order outgoing : List Outgoing} {r : FragmentReassembler}

theorem itemsOf_unknown (unknown : ∀ item ∈ written, item.1 ≠ o) : itemsOf o written = [] := by
  unfold itemsOf
  rw [List.filter_eq_nil_iff.mpr (by simpa using unknown), List.map_nil]

/-- A call begins, none of whose writes is made. -/
theorem Processed.begin (holds : Processed outgoing processed order r) (readable : o.Readable)
    (fresh : ∀ p ∈ outgoing, p.fragmentId ≠ o.fragmentId)
    (known : ∀ item ∈ processed, item.1 ∈ outgoing) :
    Processed (outgoing ++ [o]) processed order r := by
  have nothing : itemsOf o processed = [] := itemsOf_unknown fun item member same =>
    fresh _ (known item member) (same ▸ rfl)
  have absent : r.assemblies.get? o.key = none := by
    rw [Option.eq_none_iff_forall_ne_some]
    intro state found
    obtain ⟨p, member, same, _⟩ := holds.underWay _ _ found
    exact fresh p member (congrArg Prod.snd same)
  have progress : Progress o (itemsOf o processed).length (r.assemblies.get? o.key) := by
    cases readable with
    | whole only decoded plain => exact .whole only decoded plain
    | pieces pieces =>
      refine .pieces pieces fun _ => ?_
      rw [absent, nothing]
      exact fun i => Nat.not_lt_zero i
  refine ⟨fun p member => ?_, fun key state found => ?_, holds.once, fun p => ?_⟩
  · rcases List.mem_append.mp member with member | member
    · exact holds.progress p member
    · rwa [List.mem_singleton.mp member]
  · obtain ⟨p, member, rest⟩ := holds.underWay key state found
    exact ⟨p, List.mem_append_left _ member, rest⟩
  · rw [holds.delivered p, List.mem_append, List.mem_singleton]
    refine ⟨fun done => ⟨Or.inl done.1, done.2⟩, ?_⟩
    rintro ⟨member | rfl, all⟩
    · exact ⟨member, all⟩
    · have positive := progress.positive
      rw [nothing, List.length_nil] at all
      omega

theorem outgoing_set {i : Nat} {call : SendCall} (running : link.calls[i]? = some call) (n : Nat) :
    (link.calls.set i { call with written := n }).map SendCall.toOutgoing = link.outgoing := by
  refine List.ext_getElem? fun j => ?_
  rw [List.getElem?_map, List.getElem?_set, Link.outgoing, List.getElem?_map]
  by_cases same : i = j
  · subst same
    obtain ⟨inside, rfl⟩ := List.getElem?_eq_some_iff.mp running
    simp [inside]
  · rw [if_neg same]

theorem calls_apart {i j : Nat} {call other : SendCall} (apart : (link.outgoing.map Outgoing.fragmentId).Nodup)
    (first : link.calls[i]? = some call) (second : link.calls[j]? = some other)
    (same : call.toOutgoing = other.toOutgoing) : i = j := by
  have ids : (link.outgoing.map Outgoing.fragmentId)[i]? = (link.outgoing.map Outgoing.fragmentId)[j]? := by
    simp [Link.outgoing, first, second, same]
  refine (List.getElem?_inj ?_ apart).mp ids
  simpa [Link.outgoing] using (List.getElem?_eq_some_iff.mp first).1

variable (holds : Accounts link written processed order)
include holds

theorem Accounts.send {filler : Nat → UInt8} {senderId fragmentId : Bytes} {packet : BitchatPacket}
    {addPadding : Bool} {timestamp : Int} {writes : List Bytes}
    (made : sendPacket filler senderId packet addPadding fragmentId timestamp = .ok writes)
    (orderly : link.Orderly lim (.send filler senderId packet addPadding fragmentId timestamp)) :
    Accounts { link with calls := link.calls ++ [{ packet, senderId, fragmentId, writes }] }
      written processed order := by
  obtain ⟨current, plain, sender, idSize, clock, unused⟩ := orderly
  have readable := sendPacket_readable (encodePacket_eq packet filler addPadding) current sender idSize clock
    plain made
  have fresh : ∀ p ∈ link.outgoing, p.fragmentId ≠ fragmentId := by
    intro p member
    obtain ⟨call, here, rfl⟩ := List.mem_map.mp member
    exact unused call here
  have begun : Link.outgoing { link with calls := link.calls ++ [{ packet, senderId, fragmentId, writes }] } =
      link.outgoing ++ [⟨packet, senderId, fragmentId, writes⟩] := List.map_append
  obtain ⟨pending, split, queued⟩ := holds.fifo
  have processedKnown : ∀ item ∈ processed, item.1 ∈ link.outgoing := fun item member =>
    holds.known item (split ▸ List.mem_append_left _ member)
  refine ⟨?_, holds.woven, ?_, fun i call found => ?_, ⟨pending, split, queued⟩, ?_, holds.dispatched⟩
  · rw [begun, List.map_append]
    refine List.nodup_append'.mpr ⟨holds.apart, List.nodup_singleton _, fun id member same => ?_⟩
    obtain ⟨p, here, rfl⟩ := List.mem_map.mp member
    exact fresh p here (by simpa using same)
  · rw [begun]
    exact fun item member => List.mem_append_left _ (holds.known item member)
  · rw [List.getElem?_append] at found
    split at found
    · exact holds.position i call found
    · obtain rfl := List.mem_singleton.mp (List.mem_of_getElem? found)
      rw [itemsOf_unknown fun item member same => fresh _ (holds.known item member) (same ▸ rfl)]
      rfl
  · rw [begun]
    exact holds.received.begin readable fresh processedKnown

theorem Accounts.write {i : Nat} {call : SendCall} {data : Bytes} (running : link.calls[i]? = some call)
    (due : call.writes[call.written]? = some data) (room : link.receiver.queueFull = false) :
    Accounts
      { calls := link.calls.set i { call with written := call.written + 1 }
        receiver := link.receiver.handleIncomingNotification data }
      (written ++ [(call.toOutgoing, data)]) processed order := by
  have queued : link.receiver.handleIncomingNotification data =
      { link.receiver with receiveQueue := link.receiver.receiveQueue ++ [data] } := by
    rw [BLETransport.handleIncomingNotification, if_neg (by simp [room])]
  have same : Link.outgoing { calls := link.calls.set i { call with written := call.written + 1 }
                              receiver := link.receiver.handleIncomingNotification data } =
      link.outgoing := outgoing_set running _
  have mine : call.toOutgoing ∈ link.outgoing := List.mem_map_of_mem (List.mem_of_getElem? running)
  obtain ⟨pending, split, inQueue⟩ := holds.fifo
  refine ⟨same ▸ holds.apart, holds.woven.next ?_, ?_, fun j other found => ?_,
    ⟨pending ++ [(call.toOutgoing, data)], ?_, ?_⟩, ?_, ?_⟩
  · rw [holds.position i call running]
    exact due
  · rw [same]
    intro item member
    rcases List.mem_append.mp member with member | member
    · exact holds.known item member
    · exact List.mem_singleton.mp member ▸ mine
  · rw [List.getElem?_set] at found
    by_cases here : i = j
    · subst here
      rw [if_pos rfl, if_pos (List.getElem?_eq_some_iff.mp running).1, Option.some.injEq] at found
      subst found
      rw [itemsOf_length_own, holds.position i call running]
    · rw [if_neg here] at found
      have different : call.toOutgoing ≠ other.toOutgoing :=
        fun alike => here (calls_apart holds.apart running found alike)
      rw [itemsOf_length_other different]
      exact holds.position j other found
  · rw [split, List.append_assoc]
  · rw [queued, List.map_append, inQueue]
    rfl
  · rw [same, queued]
    exact holds.received
  · rw [queued]
    exact holds.dispatched

variable (most : 440 ≤ lim.maxFragmentsPerAssembly) (bytes : 440 * fragmentChunkSize ≤ lim.maxReassembledBytes)
include most bytes

theorem Accounts.work (now : Seconds)
    (waiting : link.calls.length ≤ link.receiver.dispatched.length + lim.maxActiveAssemblies) :
    ∃ processed order, Accounts { link with receiver := link.receiver.receiveWorker lim now }
      written processed order := by
  obtain ⟨pending, split, queued⟩ := holds.fifo
  cases pending with
  | nil =>
    have idle : link.receiver.receiveWorker lim now = link.receiver := by
      simp [BLETransport.receiveWorker, ← queued]
    rw [idle]
    exact ⟨processed, order, holds⟩
  | cons item pending =>
    obtain ⟨o, data⟩ := item
    have whole : written = (processed ++ [(o, data)]) ++ pending := by simp [split]
    have mine : o ∈ link.outgoing := holds.known (o, data) (by simp [split])
    have due := (holds.woven.earlier ⟨pending, whole.symm⟩).last
    have waiting' : link.outgoing.length ≤ order.length + lim.maxActiveAssemblies := by
      simpa [Link.outgoing, holds.dispatched] using waiting
    rcases processedBy : processRawBytes lim now data link.receiver.reassembler with ⟨received, t⟩
    have step := holds.received.step due holds.apart mine most bytes waiting' processedBy
    have taken : link.receiver.receiveQueue = data :: pending.map Prod.snd := queued.symm
    have after : link.receiver.receiveWorker lim now = { link.receiver with
        receiveQueue := pending.map Prod.snd
        reassembler := t
        dispatched := link.receiver.dispatched ++ handed received } := by
      simp only [BLETransport.receiveWorker, taken, processedBy]
    rw [after]
    rcases step with ⟨rfl, received'⟩ | ⟨rfl, received'⟩
    · refine ⟨_, order, holds.apart, holds.woven, holds.known, holds.position, ⟨pending, whole, rfl⟩,
        received', ?_⟩
      rw [holds.dispatched, handed_none, List.append_nil]
    · refine ⟨_, order ++ [o], holds.apart, holds.woven, holds.known, holds.position, ⟨pending, whole, rfl⟩,
        received', ?_⟩
      rw [holds.dispatched, handed_some, List.map_append, List.map_singleton]

omit holds in
theorem Accounts.step (step : Link.Step lim link event next) (orderly : link.Orderly lim event)
    (accounts : ∃ written processed order, Accounts link written processed order) :
    ∃ written processed order, Accounts next written processed order := by
  obtain ⟨written, processed, order, holds⟩ := accounts
  cases step with
  | send made => exact ⟨written, processed, order, holds.send made orderly⟩
  | write running due => exact ⟨_, processed, order, holds.write running due orderly⟩
  | @work now _ => exact ⟨written, holds.work most bytes now orderly⟩

omit most bytes in
theorem Accounts.order_subset : order ⊆ (link.calls.filter SendCall.finished).map SendCall.toOutgoing := by
  intro o member
  obtain ⟨mine, all⟩ := (holds.received.delivered o).mp member
  obtain ⟨call, here, rfl⟩ := List.mem_map.mp mine
  obtain ⟨i, found⟩ := List.mem_iff_getElem?.mp here
  obtain ⟨pending, split, _⟩ := holds.fifo
  have earlier := (itemsOf_mono call.toOutgoing ⟨pending, split.symm⟩).length_le
  have later := (holds.woven call.toOutgoing).length_le
  have position := holds.position i call found
  refine List.mem_map_of_mem (List.mem_filter.mpr ⟨here, ?_⟩)
  simp only [SendCall.finished, decide_eq_true_eq]
  omega

omit most bytes in
/-- With an empty queue, every call that has made its writes is delivered. -/
theorem Accounts.finished_subset (empty : link.receiver.receiveQueue = []) :
    (link.calls.filter SendCall.finished).map SendCall.toOutgoing ⊆ order := by
  intro o member
  obtain ⟨call, here, rfl⟩ := List.mem_map.mp member
  obtain ⟨here, done⟩ := List.mem_filter.mp here
  obtain ⟨i, found⟩ := List.mem_iff_getElem?.mp here
  obtain ⟨pending, split, queued⟩ := holds.fifo
  rw [empty, List.map_eq_nil_iff] at queued
  rw [queued, List.append_nil] at split
  refine (holds.received.delivered _).mpr ⟨List.mem_map_of_mem here, ?_⟩
  rw [← split, holds.position i call found]
  simpa [SendCall.finished] using done

omit most bytes in
theorem Accounts.finished_once : ((link.calls.filter SendCall.finished).map SendCall.toOutgoing).Nodup :=
  (List.Nodup.of_map _ holds.apart).sublist (List.filter_sublist.map _)

omit holds most bytes in
theorem Link.sent_eq (link : Link) : link.sent =
    ((link.calls.filter SendCall.finished).map SendCall.toOutgoing).map Outgoing.packet := by
  rw [List.map_map]
  rfl

omit most bytes in
theorem Accounts.subperm : link.receiver.dispatched.Subperm link.sent := by
  obtain ⟨same, perm, sublist⟩ := holds.received.once.subperm holds.order_subset
  rw [holds.dispatched, link.sent_eq]
  exact ⟨same.map _, perm.map _, sublist.map _⟩

omit most bytes in
theorem Accounts.perm (empty : link.receiver.receiveQueue = []) :
    link.receiver.dispatched.Perm link.sent := by
  have same := (List.perm_ext_iff_of_nodup holds.received.once holds.finished_once).mpr fun o =>
    ⟨fun member => holds.order_subset member, fun member => holds.finished_subset empty member⟩
  rw [holds.dispatched, link.sent_eq]
  exact same.map _

end Linked

/-- A link whose receiver has just started. -/
def Link.begun (queueMaxSize : Nat) : Link := { receiver := BLETransport.start true { queueMaxSize } }

section Runs
variable {lim : ReassemblyLimits} {queueMaxSize : Nat} {history : List (Taken Link LinkEvent)} {link : Link}
  (most : 440 ≤ lim.maxFragmentsPerAssembly) (bytes : 440 * fragmentChunkSize ≤ lim.maxReassembledBytes)
  (run : Run (Link.Step lim) (.begun queueMaxSize) history link)
  (orderly : ∀ e ∈ history, e.before.Orderly lim e.label)
include most bytes run orderly

theorem run_accounts : ∃ written processed order, Accounts link written processed order := by
  have initial : Accounts (.begun queueMaxSize) [] [] [] := by
    refine ⟨.nil, fun o => List.nil_prefix, by simp, by simp [Link.begun], ⟨[], rfl, rfl⟩, ?_, rfl⟩
    exact ⟨by simp [Link.outgoing, Link.begun], by simp [Link.begun, BLETransport.start, new], .nil,
      by simp [Link.outgoing, Link.begun]⟩
  exact run.guarded (P := fun link => ∃ written processed order, Accounts link written processed order)
    ⟨[], [], [], initial⟩ (fun accounts meets step => Accounts.step most bytes step meets accounts) orderly

/-- On an orderly link the packets handed on are packets of calls that have made all their writes, none
twice, and all of them once the queue is empty. -/
theorem link_delivers : link.receiver.dispatched.Subperm link.sent ∧
    (link.receiver.receiveQueue = [] → link.receiver.dispatched.Perm link.sent) := by
  obtain ⟨written, processed, order, holds⟩ := run_accounts most bytes run orderly
  exact ⟨holds.subperm, holds.perm⟩

end Runs

/-- The worker waits for the next notification. -/
structure Link.Waiting (link : Link) : Prop where
  running : link.receiver.isRunning = true
  size : 0 < link.receiver.queueMaxSize
  empty : link.receiver.receiveQueue = []

/-- A call makes its next writes, and the worker takes each as it arrives. -/
theorem exists_paced {lim : ReassemblyLimits} {start link : Link} {history : List (Taken Link LinkEvent)}
    (run : Run (Link.Step lim) start history link) (orderly : ∀ e ∈ history, e.before.Orderly lim e.label)
    (waiting : link.Waiting) (room : link.calls.length ≤ lim.maxActiveAssemblies) {i : Nat} (call : SendCall)
    (found : link.calls[i]? = some call) (count : Nat) (due : call.written + count ≤ call.writes.length) :
    ∃ more next, Run (Link.Step lim) start (history ++ more) next ∧
      (∀ e ∈ history ++ more, e.before.Orderly lim e.label) ∧ next.Waiting ∧
      next.calls = link.calls.set i { call with written := call.written + count } ∧
      (0 < count → .write i ∈ more.map fun e => e.label) := by
  induction count generalizing link history call with
  | zero =>
    obtain ⟨inside, here⟩ := List.getElem?_eq_some_iff.mp found
    refine ⟨[], link, by rwa [List.append_nil], by rwa [List.append_nil], waiting, ?_, by omega⟩
    have same : link.calls.set i link.calls[i] = link.calls := List.set_getElem_self inside
    rw [here] at same
    exact same.symm
  | succ count ih =>
    obtain ⟨running, size, empty⟩ := waiting
    obtain ⟨data, next⟩ : ∃ data, call.writes[call.written]? = some data :=
      ⟨_, List.getElem?_eq_getElem (by omega)⟩
    have free : link.receiver.queueFull = false := by
      simp [BLETransport.queueFull, empty, size]
      omega
    have queued : link.receiver.handleIncomingNotification data =
        { link.receiver with receiveQueue := [data] } := by
      simp [BLETransport.handleIncomingNotification, free, empty]
    let between : Link := ⟨link.calls.set i { call with written := call.written + 1 },
      { link.receiver with receiveQueue := [data] }⟩
    have write : Link.Step lim link (.write i) between := by
      have made : Link.Step lim link (.write i) _ := .write found next
      rwa [queued] at made
    let after : Link := { between with receiver := between.receiver.receiveWorker lim 0 }
    have work : Link.Step lim between (.work 0) after := .work running
    have kept : ∀ e ∈ history ++ [⟨link, .write i, between⟩] ++ [⟨between, .work 0, after⟩],
        e.before.Orderly lim e.label := by
      intro e member
      simp only [List.mem_append, List.mem_singleton] at member
      rcases member with (earlier | rfl) | rfl
      · exact orderly e earlier
      · exact free
      · simpa [between, Link.Orderly] using Nat.le_add_left_of_le room
    obtain ⟨inside, -⟩ := List.getElem?_eq_some_iff.mp found
    obtain ⟨more, last, whole, all, idle, calls, -⟩ := ih ((run.snoc write).snoc work) kept
      ⟨by simpa [after] using running, by simpa [after] using size, by simp [after, between]⟩
      (by simpa [after, between] using room) { call with written := call.written + 1 }
      (by simp [after, between, inside]) (by simp only; omega)
    refine ⟨_ :: _ :: more, last, by simpa using whole, by simpa using all, idle, ?_, fun _ => by simp⟩
    simpa [after, between, Nat.add_assoc, Nat.add_comm 1 count] using calls

/-- Another message whose encoding takes several chunks. -/
def longReply : BitchatPacket :=
  .plainMessage (List.replicate 8 3) (List.replicate 600 43) List.length_replicate
    (by rw [List.length_replicate]; omega)

/-- The fragments of two long messages reach the receiver mixed. -/
theorem link_delivers_long : ∃ history link, Run (Link.Step .standard) (.begun 100) history link ∧
    (∀ call ∈ link.calls, 1 < call.writes.length) ∧
    [.write 0, .write 1, .write 0].Sublist (history.map fun e => e.label) ∧
    link.receiver.dispatched.Perm [longMessage, longReply] := by
  have word : (0 : Int) ≤ 0 ∧ (0 : Int) ≤ 0xFFFFFFFFFFFFFFFF := by decide
  have size (byte : UInt8) : (List.replicate 8 byte).length = fragmentIdSize := List.length_replicate
  obtain ⟨writes, sent, pieces⟩ := sendPacket_long (encodePacket_eq longMessage (fun _ => 0) false) rfl
    longMessage.senderId_size (size 2) word (by decide +kernel)
  obtain ⟨replies, answered, parts⟩ := sendPacket_long (encodePacket_eq longReply (fun _ => 0) false) rfl
    longReply.senderId_size (size 4) word (by decide +kernel)
  let message : Outgoing := ⟨longMessage, longMessage.senderId, List.replicate 8 2, writes⟩
  let reply : Outgoing := ⟨longReply, longReply.senderId, List.replicate 8 4, replies⟩
  have several : 1 < message.writes.length := pieces.several
  have parted : 1 < reply.writes.length := parts.several
  have sending : Link.Step .standard (.begun 100) _ _ := .send sent
  have begun := (Run.nil.snoc sending).snoc (.send answered)
  obtain ⟨first, link, run, orderly, waiting, calls, wrote⟩ := exists_paced begun (i := 0)
    (by
      intro e member
      simp only [List.nil_append, List.cons_append, List.mem_cons, List.not_mem_nil, or_false] at member
      rcases member with rfl | rfl
      · exact ⟨rfl, rfl, longMessage.senderId_size, by decide, word, by simp [Link.begun]⟩
      · exact ⟨rfl, rfl, longReply.senderId_size, by decide, word, by simp [Link.begun]⟩)
    ⟨rfl, Nat.zero_lt_succ 99, rfl⟩ (Nat.le_add_left 2 98) ⟨message, 0⟩ rfl 1 several.le
  replace calls : link.calls = [⟨message, 1⟩, ⟨reply, 0⟩] := calls
  obtain ⟨second, link, run, orderly, waiting, calls', replied⟩ := exists_paced run orderly waiting (i := 1)
    (by rw [calls]; exact Nat.le_add_left 2 98) ⟨reply, 0⟩ (by rw [calls]; rfl) reply.writes.length (by simp)
  replace calls' : link.calls = [⟨message, 1⟩, ⟨reply, reply.writes.length⟩] := by simpa [calls] using calls'
  obtain ⟨third, link, run, orderly, waiting, calls, ended⟩ := exists_paced run orderly waiting (i := 0)
    (by rw [calls']; exact Nat.le_add_left 2 98) ⟨message, 1⟩ (by rw [calls']; rfl)
    (message.writes.length - 1) (by simp only; omega)
  replace calls : link.calls = [⟨message, message.writes.length⟩, ⟨reply, reply.writes.length⟩] := by
    rw [calls, calls']
    simp [Nat.add_sub_cancel' several.le]
  refine ⟨_, link, run, ?_, ?_, ?_⟩
  · simpa [calls] using ⟨several, parted⟩
  · have mixed := (List.singleton_sublist.mpr (wrote Nat.one_pos)).append
      ((List.singleton_sublist.mpr (replied (by omega))).append (List.singleton_sublist.mpr (ended (by omega))))
    rw [List.map_append, List.map_append, List.map_append, List.append_assoc, List.append_assoc]
    exact mixed.trans (List.sublist_append_right _ _)
  · have delivered := (link_delivers (by decide) (by decide) run orderly).2 waiting.empty
    simpa [Link.sent, calls, SendCall.finished, message, reply] using delivered

end Bitchat.Ble
