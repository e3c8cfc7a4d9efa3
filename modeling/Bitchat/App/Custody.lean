import Bitchat.App.Relaying
import Bitchat.Crypto.HonestHandshake
import Bitchat.Mesh.RouterSteps
import Bitchat.Mesh.StoreForwardCaps

/-! What becomes of the packets a coordinator carries for other nodes: every one of them is in a
task until its handling ends, and how it ends is settled by the links and tables at that time. -/
namespace Bitchat.App
open Crypto Protocol Mesh Lan Str

namespace MeshCoordinator
variable {τ : Type}

/-- The packets for other nodes that a background task holds. -/
def carried (c : MeshCoordinator τ) : List BitchatPacket :=
  c.backgroundTasks.filterMap RelayTask.carried

def queue (c : MeshCoordinator τ) : StoreAndForwardQueue := c.router.storeForwardQueue

section Definitions
variable [CaseMapping]

/-- A relayed packet was taken by a link, a stored one is in the queue or was refused there, and
a flushed one was sent without an error. -/
def Kept (c : MeshCoordinator τ) (x : Ending) : Prop :=
  match x.fate with
  | .handed links => links ≠ []
  | .stored target accepted => accepted = true → c.queue.Holds (.str target) x.packet
  | .abandoned => False
  | .flushed completed => completed = true

/-- Storing a packet evicts none of its target's packets that would take the queue along. -/
def Storable (cfg : MeshSettings) (now : Seconds) (target : Str) (packet : BitchatPacket)
    (c : MeshCoordinator τ) : Prop :=
  c.queue.KeepsTarget cfg.storeForward (.enqueue (.str target) packet now)

/-- The stored packets of a peer that are handed out for sending. -/
def released (cfg : MeshSettings) (now : Seconds) (peer : Str) (c : MeshCoordinator τ) :
    List BitchatPacket :=
  (c.queue.dequeueForPeer cfg.storeForward (.str peer) now).1

/-- The packets that leave the queue when a task processes a packet. -/
def processed (cfg : MeshSettings) (now : Seconds) (c : MeshCoordinator τ) : RelayTask → List BitchatPacket
  | .process packet _ =>
    if packet.messageType = .announce ∧
        CaseMapping.lower (hex packet.senderId) ≠ CaseMapping.lower cfg.localPeerIdHex then
      c.released cfg now (hex packet.senderId)
    else []
  | _ => []

variable [BaseTransport τ]

/-- A packet that no link towards its target takes is stored for a known target, and reaches
another link when the target is unknown. -/
def PassesOn (cfg : MeshSettings) (now : Seconds) (writes : Writes) (packet : BitchatPacket)
    (target : Str) (exclude : Option Str) (c : MeshCoordinator τ) : Prop :=
  if c.peerAddresses.contains target then c.Storable cfg now target packet
  else ∃ link ∈ BaseTransport.broadcastLinks exclude c.transport, writes.takes link = true

/-- The condition on a stretch of a task. -/
def SecuredTask (cfg : MeshSettings) (now : Seconds) (writes : Writes) (c : MeshCoordinator τ) :
    RelayTask → Prop
  | .relay packet (some target) exclude => c.isRunning = true ∧
      ((c.linkTowards cfg now target).1.filter (fun link => some link ≠ exclude) = none →
        c.PassesOn cfg now writes packet target exclude)
  | .relaySend address packet target exclude => writes.takes address = true ∨
      c.PassesOn cfg now writes packet target exclude
  | .flush peer _ => match (c.linkTowards cfg now peer).1 with
    | some link => writes.takes link = true
    | none => writes.broadcastRaises = false
  | .flushTo address _ => writes.takes address = true
  | .process .. | .relay _ none _ | .broadcast .. => True

variable [Primitives]

/-- The condition under which an event loses no packet. -/
def Secured (cfg : MeshSettings) (c : MeshCoordinator τ) : MeshEvent τ → Prop
  | .incoming now packet _ => c.router.Accepts cfg.router now packet →
      isForUs cfg.router packet = false → relayCopy cfg.router packet = none →
      ∀ id ∈ packet.recipientId, c.Storable cfg now (hex id) packet
  | .run i now writes => ∀ task ∈ c.backgroundTasks[i]?, c.SecuredTask cfg now writes task
  | .stop => c.carried = []
  | _ => True

/-- The packets that an event puts into the coordinator's hands: an accepted one for another node,
with its hop count decremented when it is relayed, and those that leave the queue to be sent. -/
def taken (cfg : MeshSettings) (c : MeshCoordinator τ) : MeshEvent τ → List BitchatPacket
  | .incoming now packet _ =>
    if c.router.Accepts cfg.router now packet ∧ isForUs cfg.router packet = false then
      [(relayCopy cfg.router packet).getD packet]
    else []
  | .run i now _ => match c.backgroundTasks[i]? with
    | some task => c.processed cfg now task
    | none => []
  | .connected now address => match c.addressToPeerId.get? address with
    | some peer => if peer = [] then [] else c.released cfg now peer
    | none => []
  | _ => []

end Definitions

section Steps
variable [CaseMapping] [BaseTransport τ] {cfg : MeshSettings} {fuel : Nat} {now : Seconds}
  {writes : Writes} {packet : BitchatPacket} {target : Str} {exclude : Option Str}
  {ended : List Ending} {c d : MeshCoordinator τ}

/-- Looking for a link deletes at most a route. -/
theorem linkTowards_frame (target : Str) :
    ∃ routes, (c.linkTowards cfg now target).2 = { c with router.routes := routes } := by
  unfold linkTowards
  split
  · exact ⟨c.router.routes, rfl⟩
  · obtain ⟨routes, same⟩ : ∃ routes, (c.router.getNextHop cfg.router (.str target) now).2 =
        { c.router with routes } := MeshRouter.getNextHop_frame _
    simp only [same]
    split
    · exact ⟨routes, rfl⟩
    · exact ⟨routes, rfl⟩

omit [BaseTransport τ] in
/-- What a stretch did with the packets it was given: each of them is carried on or came to an
end, and the ends keep them exactly under a condition. -/
structure Handles (cfg : MeshSettings) (c : MeshCoordinator τ) (given : List BitchatPacket)
    (condition : Prop) (ended : List Ending) (d : MeshCoordinator τ) : Prop where
  accounts : (c.carried ++ given).Perm (d.carried ++ ended.map Ending.packet)
  kept : c.queue.Accounted cfg.storeForward → ((∀ x ∈ ended, d.Kept x) ↔ condition)
  accounted : c.queue.Accounted cfg.storeForward → condition → d.queue.Accounted cfg.storeForward

omit [BaseTransport τ] in
/-- A stretch that ends no handling hands on what it was given. -/
theorem handles_open {given : List BitchatPacket}
    (accounted : c.queue.Accounted cfg.storeForward → d.queue.Accounted cfg.storeForward)
    (accounts : (c.carried ++ given).Perm d.carried) : Handles cfg c given True [] d :=
  ⟨by simpa using accounts, by simp, fun ok _ => accounted ok⟩

omit [BaseTransport τ] in
/-- Neither the queue nor a task was touched. -/
theorem handles_frame (queue : d.queue = c.queue) (tasks : d.backgroundTasks = c.backgroundTasks) :
    Handles cfg c [] True [] d :=
  handles_open (queue ▸ id) (by simp [carried, tasks])

omit [BaseTransport τ] in
theorem handles_end {condition : Prop} {fate : Fate} (queue : d.queue = c.queue)
    (tasks : d.backgroundTasks = c.backgroundTasks) (kept : d.Kept ⟨packet, fate⟩ ↔ condition) :
    Handles cfg c [packet] condition [⟨packet, fate⟩] d :=
  ⟨by simp [carried, tasks], fun _ => by simpa using kept, fun ok _ => queue ▸ ok⟩

omit [BaseTransport τ] in
theorem store_handles (stored : c.store cfg fuel now target packet = some (ended, d)) :
    Handles cfg c [packet] (c.Storable cfg now target packet) ended d := by
  unfold store at stored
  cases called : c.router.storeForwardQueue.enqueue cfg.storeForward fuel (.str target) packet now with
  | none => simp [called] at stored
  | some result =>
    obtain ⟨accepted, queue⟩ := result
    simp only [called, Option.some.injEq, Prod.mk.injEq] at stored
    obtain ⟨rfl, rfl⟩ := stored
    refine ⟨by simp [carried], ?_, ?_⟩
    · intro ok
      rw [List.forall_mem_singleton]
      exact StoreAndForwardQueue.enqueue_holds_iff ok called
    · intro ok
      exact (StoreAndForwardQueue.enqueue_accounted_iff ok called).mpr

/-- The link that is found does not depend on the routes that looking for it deletes. -/
theorem linkTowards_link : (c.linkTowards cfg now target).1 =
    ((c.resolveConnectedPeerAddress target).filter (· ≠ [])).or
      (((c.router.getNextHop cfg.router (.str target) now).1.filter (· ≠ [])).bind fun hop =>
        (c.resolveConnectedPeerAddress hop).filter (· ≠ [])) := by
  unfold linkTowards
  cases (c.resolveConnectedPeerAddress target).filter (· ≠ []) with
  | some address => rfl
  | none =>
    obtain ⟨hop, router⟩ := c.router.getNextHop cfg.router (.str target) now
    cases found : hop.filter (· ≠ []) with
    | none =>
      simp only [found]
      rfl
    | some next =>
      simp only [found]
      rfl

theorem handlePeerDisconnected_frame (address : Str) :
    (c.handlePeerDisconnected address).queue = c.queue ∧
    (c.handlePeerDisconnected address).backgroundTasks = c.backgroundTasks := by
  unfold handlePeerDisconnected
  split
  · exact ⟨rfl, rfl⟩
  · simp only
    split
    · exact ⟨rfl, rfl⟩
    · split <;> exact ⟨rfl, rfl⟩

theorem handlePeerDiscovered_frame (address peerId : Str) :
    (c.handlePeerDiscovered cfg address peerId).queue = c.queue ∧
    (c.handlePeerDiscovered cfg address peerId).backgroundTasks = c.backgroundTasks := by
  unfold handlePeerDiscovered
  simp only
  split <;> exact ⟨rfl, rfl⟩

theorem learnPeer_frame (peerAddress : Option Str) :
    (c.learnPeer cfg now packet peerAddress).queue = c.queue ∧
    (c.learnPeer cfg now packet peerAddress).backgroundTasks = c.backgroundTasks := by
  unfold learnPeer
  split
  · exact ⟨rfl, rfl⟩
  next address =>
    split
    · exact ⟨rfl, rfl⟩
    · have noted : ∃ peers addresses, (if hex packet.senderId = address ∨ 7 ≤ packet.ttl then
          c.noteAddress (hex packet.senderId) address else c) =
          { c with peerAddresses := addresses, addressToPeerId := peers } := by
        split
        · exact ⟨_, _, rfl⟩
        · exact ⟨c.addressToPeerId, c.peerAddresses, rfl⟩
      obtain ⟨peers, addresses, noted⟩ := noted
      obtain ⟨routes, same⟩ : ∃ routes, c.router.addRoute cfg.router (.str (hex packet.senderId))
          (.str ((peers.get? address).getD address)) (MeshRouter.hopsSoFar packet.ttl) now =
          { c.router with routes } := MeshRouter.addRoute_frame _ _ _
      simp only [noted, queue, same, and_self]

omit [BaseTransport τ] in
theorem flushPending_handles (now : Seconds) (peer : Str)
    (task : BitchatPacket → RelayTask) (carries : ∀ packet, (task packet).carried = some packet) :
    Handles cfg c (c.released cfg now peer) True [] (c.flushPending cfg now peer task) := by
  unfold flushPending
  split
  next pending =>
    apply handles_open
    · exact (StoreAndForwardQueue.shrinks_dequeueForPeer cfg.storeForward (.str peer) now c.queue).accounted
    · simp [carried, List.filterMap_append, List.filterMap_map, carries, released, queue]
  next nothing =>
    apply handles_open id
    simp [released, queue, StoreAndForwardQueue.dequeueForPeer_nothing (Bool.not_eq_true _ ▸ nothing)]

variable [Primitives]

theorem relayOnward_handles
    (relayed : c.relayOnward cfg fuel now writes packet target exclude = some (ended, d)) :
    Handles cfg c [packet] (c.PassesOn cfg now writes packet target exclude) ended d := by
  unfold relayOnward at relayed
  unfold PassesOn
  split at relayed
  next known =>
    simp only [known, if_true]
    exact store_handles relayed
  next unknown =>
    simp only [Option.some.injEq, Prod.mk.injEq] at relayed
    obtain ⟨rfl, rfl⟩ := relayed
    apply handles_end (c := c) (d := c.record cfg now packet) rfl rfl
    simp [Kept, broadcastTo, unknown, List.filter_eq_nil_iff]

theorem relayTowards_handles
    (relayed : c.relayTowards cfg fuel now writes packet target exclude = some (ended, d)) :
    Handles cfg c [packet]
      ((c.linkTowards cfg now target).1.filter (fun link => some link ≠ exclude) = none →
        c.PassesOn cfg now writes packet target exclude) ended d := by
  obtain ⟨routes, frame⟩ : ∃ routes, (c.linkTowards cfg now target).2 = { c with router.routes := routes } :=
    linkTowards_frame target
  unfold relayTowards at relayed
  simp only [frame] at relayed
  cases link : (c.linkTowards cfg now target).1.filter fun link => some link ≠ exclude with
  | none =>
    simp only [link] at relayed
    simp only [true_implies]
    exact { relayOnward_handles (c := { c with router.routes := routes }) relayed with }
  | some address =>
    simp only [link, Option.some.injEq, Prod.mk.injEq] at relayed
    obtain ⟨rfl, rfl⟩ := relayed
    simp only [reduceCtorEq, false_implies]
    refine handles_open (d := spawn _ _) id ?_
    simp [carried, spawn, RelayTask.carried]

theorem linkTowards_record (target : Str) :
    ((c.record cfg now packet).linkTowards cfg now target).1 = (c.linkTowards cfg now target).1 := by
  have route : ((c.record cfg now packet).router.getNextHop cfg.router (.str target) now).1 =
      (c.router.getNextHop cfg.router (.str target) now).1 := by
    simp only [record, MeshRouter.getNextHop]
    split
    · rfl
    · split <;> rfl
  rw [linkTowards_link, linkTowards_link, route]
  rfl

omit [Primitives] in
/-- The condition on a stretch does not look at the other tasks. -/
theorem securedTask_tasks (tasks : List RelayTask) (task : RelayTask) :
    SecuredTask cfg now writes { c with backgroundTasks := tasks } task ↔
      c.SecuredTask cfg now writes task := by
  cases task with
  | process | broadcast | relaySend | flushTo => rfl
  | relay packet target exclude =>
    cases target with
    | none => rfl
    | some target =>
      simp only [SecuredTask, linkTowards_link]
      rfl
  | flush peer packet =>
    simp only [SecuredTask, linkTowards_link]
    rfl

theorem flush_handles (peer : Str) :
    Handles cfg c [packet] (c.SecuredTask cfg now writes (.flush peer packet))
      [⟨packet, .flushed (c.sendPacket cfg now writes peer packet).1⟩]
      (c.sendPacket cfg now writes peer packet).2 := by
  obtain ⟨routes, frame⟩ : ∃ routes, ((c.record cfg now packet).linkTowards cfg now peer).2 =
      { c.record cfg now packet with router.routes := routes } := linkTowards_frame peer
  unfold sendPacket SecuredTask
  simp only [frame, linkTowards_record]
  cases (c.linkTowards cfg now peer).1 with
  | none =>
      exact handles_end (c := c) (d := { c.record cfg now packet with router.routes := routes }) rfl rfl (by simp [Kept])
  | some address =>
      exact handles_end (c := c) (d := { c.record cfg now packet with router.routes := routes }) rfl rfl (by simp [Kept])

theorem relayPacket_handles {target : Option Str}
    (relayed : c.relayPacket cfg fuel now writes packet target exclude = some (ended, d)) :
    Handles cfg c (RelayTask.relay packet target exclude).carried.toList
      (c.SecuredTask cfg now writes (.relay packet target exclude)) ended d := by
  unfold relayPacket at relayed
  cases target with
  | none =>
    simp only [Option.some.injEq, Prod.mk.injEq] at relayed
    obtain ⟨rfl, rfl⟩ := relayed
    split
    · refine handles_open (d := spawn _ _) id ?_
      simp [carried, spawn, RelayTask.carried, List.filterMap_cons]
    · exact handles_open id (by simp [RelayTask.carried])
  | some target =>
    simp only at relayed
    simp only [SecuredTask]
    split at relayed
    next running =>
      simp only [running, true_and]
      exact relayTowards_handles relayed
    next stopped =>
      simp only [Option.some.injEq, Prod.mk.injEq] at relayed
      obtain ⟨rfl, rfl⟩ := relayed
      simp only [stopped, Bool.false_eq_true, false_and]
      exact handles_end rfl rfl (by simp [Kept])

omit [Primitives] in
theorem processPacket_handles (peerAddress : Option Str) :
    Handles cfg c (c.processed cfg now (.process packet peerAddress)) True []
      (c.processPacket cfg now packet peerAddress) := by
  simp only [processed]
  by_cases self : CaseMapping.lower (hex packet.senderId) = CaseMapping.lower cfg.localPeerIdHex
  · have same : c.processPacket cfg now packet peerAddress = c := if_pos self
    rw [same, if_neg fun both => both.2 self]
    exact handles_open id (by simp)
  · obtain ⟨queue, tasks⟩ : (c.learnPeer cfg now packet peerAddress).queue = c.queue ∧
        (c.learnPeer cfg now packet peerAddress).backgroundTasks = c.backgroundTasks :=
      learnPeer_frame peerAddress
    have released : c.released cfg now (hex packet.senderId) =
        (c.learnPeer cfg now packet peerAddress).released cfg now (hex packet.senderId) := by
      rw [MeshCoordinator.released, MeshCoordinator.released, queue]
    have carried : c.carried = (c.learnPeer cfg now packet peerAddress).carried := by
      rw [MeshCoordinator.carried, MeshCoordinator.carried, tasks]
    unfold processPacket
    simp only [self, if_false, ne_eq, not_false_eq_true, and_true]
    split
    next announce =>
      have flushed : Handles cfg (c.learnPeer cfg now packet peerAddress) _ True [] _ :=
        flushPending_handles now (hex packet.senderId) (.flush (hex packet.senderId)) fun _ => rfl
      rw [announce]
      apply handles_open
      · exact fun ok => flushed.accounted (queue ▸ ok) trivial
      · rw [carried, released]
        simpa using flushed.accounts
    next otherwise =>
      split
      next announce => exact absurd announce otherwise
      next => exact handles_frame queue tasks

theorem runTask_handles {task : RelayTask} (ran : c.runTask cfg fuel now writes task = some (ended, d)) :
    Handles cfg c (task.carried.toList ++ c.processed cfg now task)
      (c.SecuredTask cfg now writes task) ended d := by
  cases task with
  | process packet peerAddress =>
    simp only [runTask, Option.some.injEq, Prod.mk.injEq] at ran
    obtain ⟨rfl, rfl⟩ := ran
    exact processPacket_handles peerAddress
  | relay packet target exclude =>
    simp only [processed, List.append_nil]
    exact relayPacket_handles ran
  | broadcast packet exclude =>
    simp only [runTask, Option.some.injEq, Prod.mk.injEq] at ran
    obtain ⟨rfl, rfl⟩ := ran
    split
    · exact handles_open (d := record ..) id (by simp [carried, RelayTask.carried, processed, record])
    · exact handles_open id (by simp [RelayTask.carried, processed])
  | relaySend address packet target exclude =>
    simp only [runTask] at ran
    simp only [SecuredTask]
    split at ran
    next takes =>
      simp only [Option.some.injEq, Prod.mk.injEq] at ran
      obtain ⟨rfl, rfl⟩ := ran
      simp only [takes, true_or]
      exact handles_end rfl rfl (by simp [Kept])
    next fails =>
      simp only [fails, Bool.false_eq_true, false_or]
      exact relayOnward_handles ran
  | flush peer packet =>
    simp only [runTask, Option.some.injEq, Prod.mk.injEq] at ran
    obtain ⟨rfl, rfl⟩ := ran
    exact flush_handles peer
  | flushTo address packet =>
    simp only [runTask, Option.some.injEq, Prod.mk.injEq] at ran
    obtain ⟨rfl, rfl⟩ := ran
    exact handles_end rfl rfl Iff.rfl

theorem handleIncomingPacket_handles {peerAddress : Option Str}
    (handled : c.handleIncomingPacket cfg fuel now packet peerAddress = some (ended, d)) :
    Handles cfg c (c.taken cfg (.incoming now packet peerAddress))
      (c.Secured cfg (.incoming now packet peerAddress)) ended d := by
  have queued : (c.router.evaluateIncoming cfg.router now packet peerAddress).2.storeForwardQueue = c.queue :=
    MeshRouter.evaluateIncoming_queue
  have same : c.queue.Accounted cfg.storeForward →
      (c.router.evaluateIncoming cfg.router now packet peerAddress).2.storeForwardQueue.Accounted
        cfg.storeForward := queued ▸ id
  unfold handleIncomingPacket at handled
  simp only [taken, Secured]
  by_cases accepts : c.router.Accepts cfg.router now packet
  · obtain ⟨decided, _⟩ : (c.router.evaluateIncoming cfg.router now packet peerAddress).1 = _ ∧ _ :=
      MeshRouter.evaluateIncoming_accepts accepts
    simp only [decided] at handled
    simp only [accepts, true_and, true_implies]
    cases local' : isForUs cfg.router packet with
    | true =>
      -- processed here, and relayed as well when it is for everyone
      simp only [local', if_true] at handled
      simp only [Bool.true_eq_false, if_false, false_implies]
      cases copied : relayCopy cfg.router packet with
      | none =>
        simp only [copied, Option.some.injEq, Prod.mk.injEq] at handled
        obtain ⟨rfl, rfl⟩ := handled
        exact handles_open same (by simp [carried, spawn, RelayTask.carried, List.filterMap_cons])
      | some copy =>
        simp only [copied, Option.some.injEq, Prod.mk.injEq] at handled
        obtain ⟨rfl, rfl⟩ := handled
        exact handles_open same (by simp [carried, spawn, RelayTask.carried, List.filterMap_cons])
    | false =>
      obtain ⟨id, directed⟩ : ∃ id, packet.recipientId = some id := by
        rw [← Option.ne_none_iff_exists']
        intro everyone
        simp [isForUs, isBroadcast, everyone] at local'
      simp only [local', directed, Option.map_some, Bool.false_eq_true, if_false] at handled
      simp only [directed, if_true, true_implies, Option.mem_some_iff, forall_eq']
      cases copied : relayCopy cfg.router packet with
      | none =>
        simp only [copied] at handled
        simp only [Option.getD_none, true_implies]
        have handles := store_handles handled
        rw [Storable, queue, queued] at handles
        exact { handles with
          kept := fun ok => handles.kept (same ok)
          accounted := fun ok => handles.accounted (same ok) }
      | some copy =>
        simp only [copied, Option.some.injEq, Prod.mk.injEq] at handled
        obtain ⟨rfl, rfl⟩ := handled
        simp only [Option.getD_some, reduceCtorEq, false_implies]
        exact handles_open same (by simp [carried, spawn, RelayTask.carried])
  · obtain ⟨silent, none', untargeted, _⟩ :
        (c.router.evaluateIncoming cfg.router now packet peerAddress).1.shouldProcessLocally = false ∧ _ :=
      MeshRouter.evaluateIncoming_rejects accepts
    simp only [silent, none', untargeted, Bool.false_eq_true, if_false, Option.some.injEq,
      Prod.mk.injEq] at handled
    obtain ⟨rfl, rfl⟩ := handled
    simp only [accepts, false_and, if_false, false_implies]
    exact handles_frame queued rfl

theorem perform_handles {event : MeshEvent τ} (performed : c.perform cfg fuel event = some (ended, d)) :
    Handles cfg c (c.taken cfg event) (c.Secured cfg event) ended d := by
  cases event with
  | incoming now packet peerAddress => exact handleIncomingPacket_handles performed
  | run i now writes =>
    simp only [perform] at performed
    simp only [Secured, taken]
    cases found : c.backgroundTasks[i]? with
    | none =>
      simp only [found, Option.some.injEq, Prod.mk.injEq] at performed
      obtain ⟨rfl, rfl⟩ := performed
      simp only [Option.not_mem_none, false_implies, implies_true]
      exact handles_open id (by simp)
    | some task =>
      simp only [found] at performed
      simp only [Option.mem_some_iff, forall_eq']
      set rest := { c with backgroundTasks := c.backgroundTasks.eraseIdx i }
      have handles := runTask_handles (c := rest) performed
      rw [securedTask_tasks] at handles
      refine ⟨?_, handles.kept, handles.accounted⟩
      have split : c.carried.Perm (rest.carried ++ task.carried.toList) := by
        obtain ⟨bound, rfl⟩ := List.getElem?_eq_some_iff.mp found
        have order := (List.getElem_cons_eraseIdx_perm bound).symm.filterMap RelayTask.carried
        rw [← List.singleton_append, List.filterMap_append] at order
        refine (order.trans List.perm_append_comm).trans ?_
        cases carried : (c.backgroundTasks[i]).carried <;> simp [carried, rest, MeshCoordinator.carried]
      calc c.carried ++ c.processed cfg now task
        _ |>.Perm (rest.carried ++ task.carried.toList ++ rest.processed cfg now task) :=
          split.append_right _
        _ |>.Perm (d.carried ++ ended.map Ending.packet) := by
          rw [List.append_assoc]
          exact handles.accounts
  | send now target packet =>
    simp only [perform, Option.some.injEq, Prod.mk.injEq] at performed
    obtain ⟨rfl, rfl⟩ := performed
    cases target with
    | none => exact handles_frame rfl rfl
    | some peer =>
      obtain ⟨routes, frame⟩ : ∃ routes, ((c.record cfg now packet).linkTowards cfg now peer).2 =
          { c.record cfg now packet with router.routes := routes } := linkTowards_frame peer
      simp only [frame]
      exact handles_frame rfl rfl
  | connected now address =>
    simp only [perform, Option.some.injEq, Prod.mk.injEq] at performed
    obtain ⟨rfl, rfl⟩ := performed
    simp only [taken, Secured, handlePeerConnected]
    cases c.addressToPeerId.get? address with
    | none => exact handles_frame rfl rfl
    | some peer =>
      by_cases named : peer = []
      · simp only [named, if_true]
        exact handles_frame rfl rfl
      · simp only [named, if_false]
        exact flushPending_handles now peer (.flushTo address) fun _ => rfl
  | disconnected address =>
    simp only [perform, Option.some.injEq, Prod.mk.injEq] at performed
    obtain ⟨rfl, rfl⟩ := performed
    obtain ⟨queue, tasks⟩ := handlePeerDisconnected_frame (c := c) address
    exact handles_frame queue tasks
  | discovered address peerId =>
    simp only [perform, Option.some.injEq, Prod.mk.injEq] at performed
    obtain ⟨rfl, rfl⟩ := performed
    obtain ⟨queue, tasks⟩ : (c.handlePeerDiscovered cfg address peerId).queue = c.queue ∧ _ :=
      handlePeerDiscovered_frame address peerId
    exact handles_frame queue tasks
  | prune now =>
    simp only [perform, Option.some.injEq, Prod.mk.injEq] at performed
    obtain ⟨rfl, rfl⟩ := performed
    have pruned := StoreAndForwardQueue.shrinks_pruneExpired cfg.storeForward now c.queue
    exact handles_open pruned.accounted (by simp [carried, taken, pruneCaches])
  | transport next =>
    simp only [perform, Option.some.injEq, Prod.mk.injEq] at performed
    obtain ⟨rfl, rfl⟩ := performed
    exact handles_frame rfl rfl
  | running running =>
    simp only [perform, Option.some.injEq, Prod.mk.injEq] at performed
    obtain ⟨rfl, rfl⟩ := performed
    exact handles_frame rfl rfl
  | resetSessionState =>
    simp only [perform, Option.some.injEq, Prod.mk.injEq] at performed
    obtain ⟨rfl, rfl⟩ := performed
    exact handles_frame rfl rfl
  | stop =>
    simp only [perform, stop, Option.some.injEq, Prod.mk.injEq] at performed
    obtain ⟨rfl, rfl⟩ := performed
    refine ⟨?_, fun _ => ?_, fun ok _ => ok⟩
    · simp [taken, carried, Function.comp_def]
    · rw [List.forall_mem_map, Secured, carried, List.eq_nil_iff_forall_not_mem]
      rfl

/-- In every run each packet taken into custody is in a task until its handling ends, and no
packet is lost at an end exactly when each step meets its condition. -/
theorem no_packet_lost {start : MeshCoordinator τ} {history : List (Taken (MeshCoordinator τ) (Performed τ))}
    (run : Run (Step cfg) start history c) (accounted : start.queue.Accounted cfg.storeForward) :
    (start.carried ++ history.flatMap fun e => e.before.taken cfg e.label.event).Perm
      (c.carried ++ history.flatMap fun e => e.label.ended.map Ending.packet) ∧
    ((∀ e ∈ history, ∀ x ∈ e.label.ended, e.after.Kept x) ↔
      ∀ e ∈ history, e.before.Secured cfg e.label.event) := by
  constructor
  · induction run with
    | nil => simp
    | @snoc history c label d _ step ih =>
      obtain ⟨fuel, performed⟩ := step
      have handles := perform_handles performed
      simp only [List.flatMap_append, List.flatMap_singleton]
      calc start.carried ++ ((history.flatMap fun e => e.before.taken cfg e.label.event) ++ c.taken cfg label.event)
        _ |>.Perm (c.carried ++ (history.flatMap fun e => e.label.ended.map Ending.packet) ++
            c.taken cfg label.event) := by
          rw [← List.append_assoc]
          exact ih.append_right _
        _ |>.Perm (c.carried ++ c.taken cfg label.event ++
            history.flatMap fun e => e.label.ended.map Ending.packet) := by
          rw [List.append_assoc, List.append_assoc]
          exact List.perm_append_comm.append_left _
        _ |>.Perm (d.carried ++ label.ended.map Ending.packet ++
            history.flatMap fun e => e.label.ended.map Ending.packet) := handles.accounts.append_right _
        _ |>.Perm (d.carried ++ ((history.flatMap fun e => e.label.ended.map Ending.packet) ++
            label.ended.map Ending.packet)) := by
          rw [List.append_assoc]
          exact List.perm_append_comm.append_left _
  · apply run.meets_iff (P := fun c => c.queue.Accounted cfg.storeForward)
      (Q := fun _ label d => ∀ x ∈ label.ended, d.Kept x) (C := fun c label => c.Secured cfg label.event) accounted
    · rintro c label d ok ⟨fuel, performed⟩
      exact (perform_handles performed).kept ok
    · rintro c label d ok secured ⟨fuel, performed⟩
      exact (perform_handles performed).accounted ok secured

end Steps
end MeshCoordinator
end Bitchat.App

namespace Bitchat.App.MeshCoordinator
open Crypto Protocol Mesh Lan Str Modular
attribute [local instance] Modular.primitives asciiCase

/-- A message for another node, with hops left to relay it and without. -/
def parcel : BitchatPacket := .noteTo 1 9 7

def lastHopParcel : BitchatPacket := parcel.lastHop

def recipient : Str := hex (List.replicate 8 9)

/-- The recipient announces itself. -/
def hello : BitchatPacket := { BitchatPacket.note 9 7 with messageType := .announce }

def working : Writes := ⟨fun _ => true, false⟩
def broken : Writes := ⟨fun _ => false, false⟩

def storing : MeshEvent LANTransport := .incoming 0 lastHopParcel (some neighbour)

/-- A message that is stored for its recipient is kept. -/
theorem stored_parcel_kept : (after storing courier).1 = [⟨lastHopParcel, .stored recipient true⟩] ∧
    (after storing courier).2.queue.Holds (.str recipient) lastHopParcel := by
  have ended : (after storing courier).1 = [⟨lastHopParcel, .stored recipient true⟩] := by decide +kernel
  refine ⟨ended, ?_⟩
  have run : Run (Step courierSettings) courier _ _ :=
    Run.nil.snoc (step_after storing (by decide +kernel))
  have kept := (no_packet_lost run (StoreAndForwardQueue.new_accounted _)).2.mpr ?_
  · exact kept ⟨courier, ⟨storing, (after storing courier).1⟩, (after storing courier).2⟩ (by simp)
      ⟨lastHopParcel, .stored recipient true⟩ (by simp [ended]) rfl
  · intro e member
    rw [List.nil_append, List.mem_singleton] at member
    subst member
    intro _ _ _ id directed
    obtain rfl : List.replicate 8 9 = id := Option.some.inj directed
    exact Or.inr trivial

def relaying : MeshEvent LANTransport := .incoming 0 parcel (some neighbour)
def announcing : MeshEvent LANTransport := .incoming 1 hello (some neighbour)

/-- A message that finds no link but the one it came over is neither sent nor stored, and one
that is taken out of the queue is gone when its send fails. -/
theorem not_every_packet_kept :
    (∃ history c, Run (Step courierSettings) courier history c ∧
      (∃ e ∈ history, e.label.event = relaying ∧ e.before.isRunning = true ∧
        e.before.router.Accepts courierSettings.router 0 parcel ∧
        isForUs courierSettings.router parcel = false) ∧
      (∃ e ∈ history, ∃ copy, relayCopy courierSettings.router parcel = some copy ∧
        e.label.ended = [⟨copy, .handed []⟩]) ∧
      c.backgroundTasks = [] ∧ c.queue = .new) ∧
    ∃ history c, Run (Step courierSettings) courier history c ∧
      (∃ e ∈ history, e.label.ended = [⟨lastHopParcel, .stored recipient true⟩]) ∧
      (∃ e ∈ history, e.label.ended = [⟨lastHopParcel, .flushed false⟩]) ∧ c.queue = .new := by
  constructor
  · have run : Run (Step courierSettings) courier _ _ :=
      (Run.nil.snoc (step_after relaying (by decide +kernel))).snoc
        (step_after (.run 0 1 working) (by decide +kernel))
    refine ⟨_, _, run, ⟨_, List.mem_append_left _ List.mem_cons_self, rfl, rfl, ?_, ?_⟩,
      ⟨_, List.mem_append_right _ List.mem_cons_self, _, rfl, ?_⟩, ?_, ?_⟩
    all_goals decide +kernel
  · have run : Run (Step courierSettings) courier _ _ :=
      (((Run.nil.snoc (step_after storing (by decide +kernel))).snoc
        (step_after announcing (by decide +kernel))).snoc
        (step_after (.run 0 2 working) (by decide +kernel))).snoc
        (step_after (.run 1 3 broken) (by decide +kernel))
    refine ⟨_, _, run, ⟨_, List.mem_append_left _ (List.mem_append_left _ (List.mem_append_left _
      List.mem_cons_self)), ?_⟩, ⟨_, List.mem_append_right _ List.mem_cons_self, ?_⟩, ?_⟩
    all_goals decide +kernel

end Bitchat.App.MeshCoordinator
