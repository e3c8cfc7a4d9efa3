import Bitchat.Mesh.StoreForwardCaps
import Mathlib.Data.List.TakeWhile
import Mathlib.Logic.Relation

/-! Why packets leave the store-and-forward queue: every call takes them off the front of a peer's
queue, each for a reason of its own. -/
namespace Bitchat.Mesh.StoreAndForwardQueue
open Protocol Str

/-- The packets that wait for a peer. -/
def queueOf (s : StoreAndForwardQueue) (peer : Str) : List QueuedPacket := (s.queues.get? peer).getD []

/-- From each queue some packets left the front, all of them for a reason. -/
def Drops (why : Str → QueuedPacket → Prop) (s t : StoreAndForwardQueue) : Prop :=
  ∀ peer, ∃ gone, s.queueOf peer = gone ++ t.queueOf peer ∧ ∀ item ∈ gone, why peer item

/-- An eviction within a call of `enqueue`, as one of the three caps is reached. -/
inductive Evicts [CaseMapping] (lim : Limits) (target : PeerName) (size : Nat) :
    StoreAndForwardQueue → StoreAndForwardQueue → Prop where
  | perPeer {u : StoreAndForwardQueue} :
      lim.maxPerPeer ≤ (u.queueOf (normalizePeerId target)).length →
      Evicts lim target size u (u.evictFromPeer lim (normalizePeerId target))
  | packets {u : StoreAndForwardQueue} : u.tooManyPackets lim = true →
      Evicts lim target size u u.evictOldest
  | bytes {u : StoreAndForwardQueue} : u.tooManyBytes lim size = true →
      Evicts lim target size u u.evictOldest

/-- The state of a call of `enqueue` before its evictions. -/
def pruned [CaseMapping] (lim : Limits) (target : PeerName) (now : Seconds) (s : StoreAndForwardQueue) :
    StoreAndForwardQueue :=
  (s.pruneExpired lim now).setDefault (normalizePeerId target)

/-- The call of `enqueue` evicts the packet of the peer, while a cap is reached. -/
def CapEvicts [CaseMapping] (lim : Limits) (s : StoreAndForwardQueue) (target : PeerName)
    (packet : BitchatPacket) (now : Seconds) (peer : Str) (item : QueuedPacket) : Prop :=
  ∃ u v, Relation.ReflTransGen (Evicts lim target (packetSize packet)) (s.pruned lim target now) u ∧
    Evicts lim target (packetSize packet) u v ∧ u.queueOf peer = item :: v.queueOf peer

section Drops
variable {why reason : Str → QueuedPacket → Prop} {lim : Limits} {now : Seconds}
  {s t u : StoreAndForwardQueue} {peer other : Str} {item : QueuedPacket} {rest gone : List QueuedPacket}

theorem Drops.of_same (same : ∀ peer, t.queueOf peer = s.queueOf peer) : Drops why s t :=
  fun peer => ⟨[], by rw [same, List.nil_append], by simp⟩

theorem Drops.trans (first : Drops why s t) (second : Drops why t u) : Drops why s u := by
  intro peer
  obtain ⟨gone, before, reasons⟩ := first peer
  obtain ⟨later, after, reasons'⟩ := second peer
  refine ⟨gone ++ later, by rw [before, after, List.append_assoc], fun item member => ?_⟩
  exact (List.mem_append.mp member).elim (reasons item) (reasons' item)

theorem Drops.mono (drops : Drops why s t) (weaker : ∀ peer item, why peer item → reason peer item) :
    Drops reason s t := by
  intro peer
  obtain ⟨gone, before, reasons⟩ := drops peer
  exact ⟨gone, before, fun item member => weaker peer item (reasons item member)⟩

/-- One packet of one queue is gone. -/
theorem Drops.of_pop (pops : ∀ peer, s.queueOf peer = t.queueOf peer ∨
    ∃ item, s.queueOf peer = item :: t.queueOf peer) :
    Drops (fun peer item => s.queueOf peer = item :: t.queueOf peer) s t := by
  intro peer
  rcases pops peer with same | ⟨item, popped⟩
  · exact ⟨[], same, by simp⟩
  · refine ⟨[item], popped, fun other member => ?_⟩
    rw [List.mem_singleton.mp member]
    exact popped

theorem queueOf_keepOrDelete :
    (s.keepOrDelete peer rest).queueOf other = if other = peer then rest else s.queueOf other := by
  unfold queueOf keepOrDelete
  cases rest with
  | nil =>
    simp only [List.isEmpty_nil, if_true, InsertionMap.get?_erase]
    split <;> rfl
  | cons first rest =>
    simp only [List.isEmpty_cons, Bool.false_eq_true, if_false, InsertionMap.get?_set]
    split <;> rfl

theorem queueOf_eq_of_get? {queue : List QueuedPacket} (found : s.queues.get? peer = some queue) :
    s.queueOf peer = queue := by
  rw [queueOf, found]
  rfl

theorem drops_prunePeer (peer : Str) :
    Drops (fun _ item => expired lim now item = true) s (s.prunePeer lim now peer) := by
  intro other
  unfold prunePeer
  cases found : s.queues.get? peer with
  | none => exact ⟨[], rfl, by simp⟩
  | some queue =>
    rw [queueOf_keepOrDelete]
    by_cases same : other = peer
    · subst same
      refine ⟨queue.takeWhile (expired lim now), ?_, fun item member => List.mem_takeWhile_imp member⟩
      rw [if_pos rfl, List.takeWhile_append_dropWhile, queueOf_eq_of_get? found]
    · exact ⟨[], by rw [if_neg same]; rfl, by simp⟩

/-- Pruning takes expired packets only. -/
theorem drops_pruneExpired (lim : Limits) (now : Seconds) (s : StoreAndForwardQueue) :
    Drops (fun _ item => expired lim now item = true) s (s.pruneExpired lim now) := by
  unfold pruneExpired
  generalize s.queues.keys = peers
  induction peers generalizing s with
  | nil => exact .of_same fun _ => rfl
  | cons peer rest ih => exact (drops_prunePeer peer).trans (ih _)

theorem queueOf_setDefault : (s.setDefault peer).queueOf other = s.queueOf other := by
  unfold setDefault
  split
  · rfl
  · next absent =>
    have none : s.queues.get? peer = none := by simpa [InsertionMap.contains] using absent
    simp only [queueOf, InsertionMap.get?_set]
    split
    · next same => rw [same, none]; rfl
    · rfl

theorem evictFromPeer_pops (peer other : Str) :
    s.queueOf other = (s.evictFromPeer lim peer).queueOf other ∨
      ∃ item, s.queueOf other = item :: (s.evictFromPeer lim peer).queueOf other := by
  unfold evictFromPeer
  split
  · next evicted rest found =>
    split
    · by_cases same : other = peer
      · subst same
        exact Or.inr ⟨evicted, by simp [queueOf, found]⟩
      · exact Or.inl (by simp [queueOf, same])
    · exact Or.inl rfl
  · exact Or.inl rfl

theorem evictOldest_pops (other : Str) :
    s.queueOf other = s.evictOldest.queueOf other ∨
      ∃ item, s.queueOf other = item :: s.evictOldest.queueOf other := by
  rcases evictOldest_cases s with ⟨same, -⟩ | ⟨peer, first, rest, -, -, -, found, -, -, same⟩
  · exact Or.inl (by rw [same])
  · rw [same, queueOf_keepOrDelete]
    by_cases here : other = peer
    · subst here
      exact Or.inr ⟨first, by rw [if_pos rfl, queueOf_eq_of_get? found]⟩
    · exact Or.inl (by rw [if_neg here]; rfl)

variable [CaseMapping] {target : PeerName} {packet : BitchatPacket} {size : Nat}

theorem Evicts.pops (evicts : Evicts lim target size s t) (peer : Str) :
    s.queueOf peer = t.queueOf peer ∨ ∃ item, s.queueOf peer = item :: t.queueOf peer := by
  cases evicts with
  | perPeer => exact evictFromPeer_pops _ _
  | packets | bytes => exact evictOldest_pops _

/-- The evictions of a call take packets that it evicts. -/
theorem drops_evictions
    (evictions : Relation.ReflTransGen (Evicts lim target (packetSize packet)) (s.pruned lim target now) t) :
    Drops (CapEvicts lim s target packet now) (s.pruned lim target now) t := by
  induction evictions with
  | refl => exact .of_same fun _ => rfl
  | @tail u v earlier evicts ih =>
    refine ih.trans ((Drops.of_pop evicts.pops).mono fun peer item popped => ?_)
    exact ⟨u, v, earlier, evicts, popped⟩

theorem evictions_of_visits {cond : StoreAndForwardQueue → Bool} (lim : Limits) (target : PeerName) (size : Nat)
    (evicts : ∀ u : StoreAndForwardQueue, cond u = true → Evicts lim target size u u.evictOldest)
    (visited : Loop.Visits cond evictOldest s t) :
    Relation.ReflTransGen (Evicts lim target size) s t :=
  visited.invariant (P := fun t => Relation.ReflTransGen (Evicts lim target size) s t) .refl
    fun u earlier enter => earlier.tail (evicts u enter)

theorem evictions_beforeEviction :
    Relation.ReflTransGen (Evicts lim target size) (s.pruned lim target now)
      (s.beforeEviction lim target now) := by
  by_cases full : lim.maxPerPeer ≤ ((s.pruned lim target now).queueOf (normalizePeerId target)).length
  · exact .single (.perPeer full)
  · have same : s.beforeEviction lim target now = s.pruned lim target now := by
      change (s.pruned lim target now).evictFromPeer lim (normalizePeerId target) = _
      unfold evictFromPeer
      split
      · next found =>
        rw [queueOf_eq_of_get? found] at full
        exact if_neg full
      · rfl
    rw [same]

/-- A call of `enqueue` that returned prunes, and then refuses what is too big, or evicts while a cap
is reached and appends or refuses the packet. -/
theorem enqueue_evictions {fuel : Nat} {accepted : Bool}
    (returned : s.enqueue lim fuel target packet now = some (accepted, t)) :
    (lim.maxTotalBytes < packetSize packet ∧ accepted = false ∧ t = s.pruneExpired lim now) ∨
    ∃ u, Relation.ReflTransGen (Evicts lim target (packetSize packet)) (s.pruned lim target now) u ∧
      (accepted, t) = if u.overBudget lim (packetSize packet) then (false, u)
        else (true, u.append (normalizePeerId target) ⟨packet, now, packetSize packet⟩) := by
  rcases enqueue_cases returned with refused | ⟨r, u, -, first, second, result⟩
  · exact Or.inl refused
  · have early := evictions_of_visits lim target (packetSize packet) (fun _ => .packets)
      (Loop.run_visits first).1
    have late := evictions_of_visits lim target (packetSize packet) (fun _ => .bytes)
      (Loop.run_visits second).1
    exact Or.inr ⟨u, (evictions_beforeEviction.trans early).trans late, result⟩

end Drops
end Bitchat.Mesh.StoreAndForwardQueue
