import Bitchat.Ble.LinkDelivery

/-! The other direction: clients write to the characteristic of a server, which handles each write at once.
All its clients share one reassembler. The server goes through the states of a link whose worker
takes each write as it arrives. -/
namespace Bitchat.Ble
open Protocol FragmentReassembler

/-- The calls of all clients, and the packets that the server's callback was given. -/
structure ServerLink where
  calls : List SendCall := []
  serverReassembler : FragmentReassembler := .new
  dispatched : List BitchatPacket := []

inductive ServerEvent where
  | send (filler : Nat → UInt8) (senderId : Bytes) (packet : BitchatPacket) (addPadding : Bool)
      (fragmentId : Bytes) (timestamp : Int)
  | write (call : Nat) (now : Seconds)

namespace ServerLink

inductive Step (lim : ReassemblyLimits) (s : ServerLink) : ServerEvent → ServerLink → Prop where
  | send {filler senderId packet addPadding fragmentId timestamp writes} :
      sendPacket filler senderId packet addPadding fragmentId timestamp = .ok writes →
      Step lim s (.send filler senderId packet addPadding fragmentId timestamp)
        { s with calls := s.calls ++ [{ packet, senderId, fragmentId, writes }] }
  | write {i call data now received r} : s.calls[i]? = some call →
      call.writes[call.written]? = some data →
      handleServerData lim now data s.serverReassembler = (received, r) →
      Step lim s (.write i now)
        { calls := s.calls.set i { call with written := call.written + 1 }
          serverReassembler := r
          dispatched := s.dispatched ++ handed received }

/-- The link whose worker has nothing to do. -/
def asLink (s : ServerLink) : Link where
  calls := s.calls
  receiver := {
    isRunning := true
    queueMaxSize := 0
    reassembler := s.serverReassembler
    dispatched := s.dispatched }

/-- A call sends what a link can carry, and at most as many calls wait for delivery as the server can put
together at a time. -/
def Orderly (lim : ReassemblyLimits) (s : ServerLink) : ServerEvent → Prop
  | .send filler senderId packet addPadding fragmentId timestamp =>
    s.asLink.Orderly lim (.send filler senderId packet addPadding fragmentId timestamp)
  | .write .. => s.calls.length ≤ s.dispatched.length + lim.maxActiveAssemblies

/-- A write to the server is a write that the worker of the link takes at once. -/
theorem link_run {lim : ReassemblyLimits} {history : List (Taken ServerLink ServerEvent)} {s : ServerLink}
    (run : Run (Step lim) {} history s) (orderly : ∀ e ∈ history, e.before.Orderly lim e.label) :
    ∃ steps, Run (Link.Step lim) (.begun 0) steps s.asLink ∧ ∀ e ∈ steps, e.before.Orderly lim e.label := by
  induction run with
  | nil => exact ⟨[], .nil, by simp⟩
  | @snoc history s event t _ step ih =>
    obtain ⟨steps, run, kept⟩ := ih fun e member => orderly e (List.mem_append_left _ member)
    have meets : s.Orderly lim event := orderly ⟨s, event, t⟩ (by simp)
    cases step with
    | send made =>
      refine ⟨_, run.snoc (.send made), fun e member => ?_⟩
      rcases List.mem_append.mp member with earlier | here
      · exact kept e earlier
      · exact List.mem_singleton.mp here ▸ meets
    | @write i call data now received r running due processed =>
      let between : Link := ⟨s.calls.set i { call with written := call.written + 1 },
        { s.asLink.receiver with receiveQueue := [data] }⟩
      have write : Link.Step lim s.asLink (.write i) between :=
        Link.Step.write running due
      have same : processRawBytes lim now data s.serverReassembler = (received, r) := processed
      have worker : between.receiver.receiveWorker lim now = { s.asLink.receiver with
          reassembler := r
          dispatched := s.dispatched ++ handed received } := by
        simp only [between, BLETransport.receiveWorker, asLink, same]
      have work : Link.Step lim between (.work now) _ := .work rfl
      rw [worker] at work
      refine ⟨_, (run.snoc write).snoc work, fun e member => ?_⟩
      simp only [List.mem_append, List.mem_singleton] at member
      rcases member with (earlier | rfl) | rfl
      · exact kept e earlier
      · rfl
      · simpa [Orderly, Link.Orderly, between, asLink] using meets

end ServerLink

/-- Whatever the order in which the writes of its clients arrive, a server hands on the packets of the calls
that have made all their writes, each once. -/
theorem server_receives {lim : ReassemblyLimits} {history : List (Taken ServerLink ServerEvent)}
    {s : ServerLink} (most : 440 ≤ lim.maxFragmentsPerAssembly)
    (bytes : 440 * fragmentChunkSize ≤ lim.maxReassembledBytes)
    (run : Run (ServerLink.Step lim) {} history s)
    (orderly : ∀ e ∈ history, e.before.Orderly lim e.label) :
    s.dispatched.Perm ((s.calls.filter SendCall.finished).map fun call => call.packet) := by
  obtain ⟨steps, reached, kept⟩ := ServerLink.link_run run orderly
  obtain ⟨written, processed, order, holds⟩ := run_accounts most bytes reached kept
  exact holds.perm rfl

/-- Two clients, whose notes arrive in the other order. -/
theorem server_receives_notes : ∃ history s, Run (ServerLink.Step .standard) {} history s ∧
    (∃ call ∈ s.calls, ∃ other ∈ s.calls, call.senderId ≠ other.senderId) ∧
    s.dispatched.Perm [.note 1 7, .note 2 9] := by
  have first : sendPacket (fun _ => 0) (List.replicate 8 1) (.note 1 7) false (List.replicate 8 3) 0 =
    .ok [wireHeader (.note 1 7) ++ wireBody (.note 1 7)] := rfl
  have second : sendPacket (fun _ => 0) (List.replicate 8 2) (.note 2 9) false (List.replicate 8 4) 0 =
    .ok [wireHeader (.note 2 9) ++ wireBody (.note 2 9)] := rfl
  have called : Run (ServerLink.Step .standard) {} _ _ := (Run.nil.snoc (.send first)).snoc (.send second)
  have later := called.snoc (.write (i := 1) rfl rfl (show processRawBytes _ 0 _ _ = _ from rfl))
  have run := later.snoc (.write (i := 0) rfl rfl (show processRawBytes _ 1 _ _ = _ from rfl))
  refine ⟨_, _, run, ?_, ?_⟩
  · exact ⟨_, List.mem_cons_self, _, List.mem_cons_of_mem _ List.mem_cons_self, by decide⟩
  · refine server_receives (by decide) (by decide) run fun e member => ?_
    simp only [List.nil_append, List.cons_append, List.mem_cons, List.not_mem_nil, or_false] at member
    rcases member with rfl | rfl | rfl | rfl
    · exact ⟨rfl, rfl, by decide, by decide, by decide, by simp [ServerLink.asLink]⟩
    · exact ⟨rfl, rfl, by decide, by decide, by decide, by simp [ServerLink.asLink]⟩
    · exact Nat.le_add_left 2 98
    · exact Nat.le_add_left 2 99

end Bitchat.Ble
