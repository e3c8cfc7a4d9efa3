import Bitchat.Mesh.StoreForward
import Mathlib.Data.List.Induction

/-! What the counters of the store-and-forward queue count. Every operation but
the final append of `enqueue` only takes packets off the front of queues and
keeps the distance between the counters and the buffers. -/
namespace Bitchat.Mesh.StoreAndForwardQueue
open Protocol Str

def bytesOf (items : List QueuedPacket) : Nat := (items.map QueuedPacket.byteSize).sum

@[simp] theorem bytesOf_nil : bytesOf [] = 0 := rfl

@[simp] theorem bytesOf_append (a b : List QueuedPacket) :
    bytesOf (a ++ b) = bytesOf a + bytesOf b := by simp [bytesOf]

@[simp] theorem bytesOf_cons (item : QueuedPacket) (rest : List QueuedPacket) :
    bytesOf (item :: rest) = item.byteSize + bytesOf rest := by simp [bytesOf]

def heldPackets (s : StoreAndForwardQueue) : Nat := s.queues.total List.length
def heldBytes (s : StoreAndForwardQueue) : Nat := s.queues.total bytesOf

/-- Packets that are counted although no queue holds them. -/
def lostPackets (s : StoreAndForwardQueue) : Int := s.currentTotalPackets - s.heldPackets
def lostBytes (s : StoreAndForwardQueue) : Int := s.currentTotalBytes - s.heldBytes

/-- The counters count what the queues hold, and every cap is respected. -/
structure Accounted (lim : Limits) (s : StoreAndForwardQueue) : Prop where
  packets : s.currentTotalPackets = s.heldPackets
  bytes : s.currentTotalBytes = s.heldBytes
  perPeer : ∀ peer queue, s.queues.get? peer = some queue → queue.length ≤ lim.maxPerPeer
  maxPackets : s.currentTotalPackets ≤ lim.maxTotalPackets
  maxBytes : s.currentTotalBytes ≤ lim.maxTotalBytes

theorem new_accounted (lim : Limits) : Accounted lim new where
  packets := rfl
  bytes := rfl
  perPeer := by simp [new]
  maxPackets := by simp [new]
  maxBytes := by simp [new]

/-- Packets were only taken off the front of queues, and counted out. -/
structure Shrinks (s t : StoreAndForwardQueue) : Prop where
  lostPackets : t.lostPackets = s.lostPackets
  lostBytes : t.lostBytes = s.lostBytes
  heldPackets : t.heldPackets ≤ s.heldPackets
  heldBytes : t.heldBytes ≤ s.heldBytes
  queues : ∀ peer queue, t.queues.get? peer = some queue →
    queue = [] ∨ ∃ gone, s.queues.get? peer = some (gone ++ queue)

theorem Shrinks.refl (s : StoreAndForwardQueue) : Shrinks s s :=
  ⟨rfl, rfl, le_rfl, le_rfl, fun _ _ h => Or.inr ⟨[], h⟩⟩

theorem Shrinks.trans {s t u : StoreAndForwardQueue} (first : Shrinks s t)
    (second : Shrinks t u) : Shrinks s u where
  lostPackets := second.lostPackets.trans first.lostPackets
  lostBytes := second.lostBytes.trans first.lostBytes
  heldPackets := second.heldPackets.trans first.heldPackets
  heldBytes := second.heldBytes.trans first.heldBytes
  queues peer queue h := by
    rcases second.queues peer queue h with empty | ⟨gone, ht⟩
    · exact Or.inl empty
    · rcases first.queues peer _ ht with empty | ⟨earlier, hs⟩
      · exact Or.inl (List.append_eq_nil_iff.mp empty).2
      · exact Or.inr ⟨earlier ++ gone, by rw [hs, List.append_assoc]⟩

theorem Shrinks.accounted {lim : Limits} {s t : StoreAndForwardQueue} (shrinks : Shrinks s t)
    (ok : Accounted lim s) : Accounted lim t := by
  have packets := shrinks.lostPackets
  have bytes := shrinks.lostBytes
  have fewer := shrinks.heldPackets
  have less := shrinks.heldBytes
  have := ok.packets
  have := ok.bytes
  have := ok.maxPackets
  have := ok.maxBytes
  unfold StoreAndForwardQueue.lostPackets at packets
  unfold StoreAndForwardQueue.lostBytes at bytes
  refine ⟨by omega, by omega, ?_, by omega, by omega⟩
  intro peer queue h
  rcases shrinks.queues peer queue h with empty | ⟨gone, hs⟩
  · simp [empty]
  · have bound := ok.perPeer peer _ hs
    rw [List.length_append] at bound
    omega

/-- Popping `gone` off the left of one queue, whether its key stays or goes. -/
theorem shrinks_of_pop {s t : StoreAndForwardQueue} {peer : Str} (gone rest : List QueuedPacket)
    (found : s.queues.get? peer = some (gone ++ rest))
    (packets : t.currentTotalPackets = s.currentTotalPackets - gone.length)
    (bytes : t.currentTotalBytes = s.currentTotalBytes - bytesOf gone)
    (queues : t.queues = s.queues.set peer rest ∨ rest = [] ∧ t.queues = s.queues.erase peer) :
    Shrinks s t ∧ t.heldPackets + gone.length = s.heldPackets := by
  have count : ∀ f : List QueuedPacket → Nat, (∀ a b, f (a ++ b) = f a + f b) →
      t.queues.total f + f gone = s.queues.total f := by
    intro f additive
    have zero : f [] = 0 := by have := additive [] []; simp only [List.append_nil] at this; omega
    have whole := additive gone rest
    rcases queues with kept | ⟨rfl, deleted⟩
    · have := InsertionMap.total_set found rest f
      rw [kept]; omega
    · have := InsertionMap.total_erase found f
      rw [deleted]; omega
  have fewer := count List.length fun _ _ => List.length_append
  have less := count bytesOf bytesOf_append
  refine ⟨⟨?_, ?_, ?_, ?_, ?_⟩, fewer⟩
  · simp only [StoreAndForwardQueue.lostPackets, StoreAndForwardQueue.heldPackets]; omega
  · simp only [StoreAndForwardQueue.lostBytes, StoreAndForwardQueue.heldBytes]; omega
  · simp only [StoreAndForwardQueue.heldPackets]; omega
  · simp only [StoreAndForwardQueue.heldBytes]; omega
  · intro other queue h
    by_cases same : other = peer
    · subst same
      rcases queues with kept | ⟨_, deleted⟩
      · rw [kept, InsertionMap.get?_set, if_pos rfl, Option.some.injEq] at h
        exact Or.inr ⟨gone, h ▸ found⟩
      · simp [deleted] at h
    · refine Or.inr ⟨[], ?_⟩
      rcases queues with kept | ⟨_, deleted⟩
      · simpa [kept, same] using h
      · simpa [deleted, same] using h

theorem keepOrDelete_queues (s : StoreAndForwardQueue) (peer : Str) (rest : List QueuedPacket) :
    (s.keepOrDelete peer rest).queues = s.queues.set peer rest ∨
      rest = [] ∧ (s.keepOrDelete peer rest).queues = s.queues.erase peer := by
  cases rest with
  | nil => exact Or.inr ⟨rfl, rfl⟩
  | cons => exact Or.inl rfl

theorem shrinks_keepOrDelete {s : StoreAndForwardQueue} {peer : Str}
    (gone rest : List QueuedPacket) (found : s.queues.get? peer = some (gone ++ rest)) :
    Shrinks s ((s.uncount gone).keepOrDelete peer rest) ∧
      ((s.uncount gone).keepOrDelete peer rest).heldPackets + gone.length = s.heldPackets :=
  shrinks_of_pop gone rest found rfl rfl (keepOrDelete_queues (s.uncount gone) peer rest)

theorem shrinks_prunePeer (lim : Limits) (now : Seconds) (s : StoreAndForwardQueue) (peer : Str) :
    Shrinks s (s.prunePeer lim now peer) := by
  unfold prunePeer
  cases found : s.queues.get? peer with
  | none => exact .refl s
  | some queue =>
    rw [← List.takeWhile_append_dropWhile (p := expired lim now) (l := queue)] at found
    exact (shrinks_keepOrDelete _ _ found).1

theorem shrinks_pruneExpired (lim : Limits) (now : Seconds) (s : StoreAndForwardQueue) :
    Shrinks s (s.pruneExpired lim now) := by
  unfold pruneExpired
  generalize s.queues.keys = peers
  induction peers generalizing s with
  | nil => exact .refl s
  | cons peer rest ih => exact (shrinks_prunePeer lim now s peer).trans (ih _)

theorem shrinks_setDefault (s : StoreAndForwardQueue) (peer : Str) :
    Shrinks s (s.setDefault peer) := by
  unfold setDefault
  split
  · exact .refl s
  · rename_i absent
    have none : s.queues.get? peer = none := by
      simpa [InsertionMap.contains] using absent
    have total : ∀ f : List QueuedPacket → Nat, f [] = 0 →
        (s.queues.set peer []).total f = s.queues.total f := by
      intro f zero
      rw [InsertionMap.total_set_new none, zero, Nat.add_zero]
    refine ⟨?_, ?_, ?_, ?_, ?_⟩
    · simp [lostPackets, heldPackets, total List.length rfl]
    · simp [lostBytes, heldBytes, total bytesOf bytesOf_nil]
    · simp [heldPackets, total List.length rfl]
    · simp [heldBytes, total bytesOf bytesOf_nil]
    · intro other queue h
      by_cases same : other = peer
      · simp only [same, InsertionMap.get?_set, if_true, Option.some.injEq] at h
        exact Or.inl h.symm
      · exact Or.inr ⟨[], by simpa [same] using h⟩

theorem shrinks_evictFromPeer (lim : Limits) (s : StoreAndForwardQueue) (peer : Str) :
    Shrinks s (s.evictFromPeer lim peer) := by
  unfold evictFromPeer
  split
  · rename_i evicted rest found
    split
    · exact (shrinks_of_pop [evicted] rest found rfl rfl (Or.inl rfl)).1
    · exact .refl s
  · exact .refl s

theorem shrinks_beforeEviction [CaseMapping] (lim : Limits) (target : PeerName) (now : Seconds)
    (s : StoreAndForwardQueue) : Shrinks s (s.beforeEviction lim target now) :=
  ((shrinks_pruneExpired lim now s).trans (shrinks_setDefault _ _)).trans
    (shrinks_evictFromPeer lim _ _)

theorem shrinks_dequeueForPeer [CaseMapping] (lim : Limits) (target : PeerName) (now : Seconds)
    (s : StoreAndForwardQueue) : Shrinks s (s.dequeueForPeer lim target now).2 := by
  simp only [dequeueForPeer]
  cases found : s.queues.get? (normalizePeerId target) with
  | none => exact .refl s
  | some queue =>
    exact (shrinks_of_pop queue [] (by simpa using found) rfl rfl
      (Or.inr ⟨rfl, rfl⟩)).1

/-- A packet found to be stored can be found by the scan, and the scan names the first
of the queues whose head is oldest. -/
theorem oldestPeer_spec (entries : List (Str × List QueuedPacket)) :
    match oldestPeer entries with
    | none => ∀ e ∈ entries, e.2 = []
    | some (peer, time) => ∃ before first rest after,
        entries = before ++ (peer, first :: rest) :: after ∧ first.enqueuedAt = time ∧
        (∀ e ∈ before, ∀ head ∈ e.2.head?, time < head.enqueuedAt) ∧
        ∀ e ∈ after, ∀ head ∈ e.2.head?, time ≤ head.enqueuedAt := by
  induction entries using List.reverseRecOn with
  | nil => simp [oldestPeer]
  | append_singleton entries entry ih =>
    obtain ⟨peer, queue⟩ := entry
    have unfolded : oldestPeer (entries ++ [(peer, queue)]) =
        olderHead (oldestPeer entries) (peer, queue) := by
      simp [oldestPeer]
    rw [unfolded]
    cases queue with
    | nil =>
      cases best : oldestPeer entries with
      | none =>
        simp only [best] at ih
        simpa [olderHead, or_imp, forall_and] using ih
      | some found =>
        obtain ⟨name, time⟩ := found
        simp only [best] at ih
        obtain ⟨before, first, rest, after, same, at_time, smaller, larger⟩ := ih
        refine ⟨before, first, rest, after ++ [(peer, [])], by simp [same], at_time, smaller, ?_⟩
        intro e he head hh
        rcases List.mem_append.mp he with he | he
        · exact larger e he head hh
        · simp [List.mem_singleton.mp he] at hh
    | cons first rest =>
      cases best : oldestPeer entries with
      | none =>
        simp only [best] at ih
        refine ⟨entries, first, rest, [], rfl, rfl, ?_, by simp⟩
        intro e he head hh
        simp [ih e he] at hh
      | some found =>
        obtain ⟨name, time⟩ := found
        simp only [best] at ih
        obtain ⟨before, oldest, others, after, same, at_time, smaller, larger⟩ := ih
        simp only [olderHead]
        by_cases older : first.enqueuedAt < time
        · simp only [older, if_true]
          refine ⟨entries, first, rest, [], rfl, rfl, ?_, by simp⟩
          intro e he head hh
          rw [same] at he
          rcases List.mem_append.mp he with he | he
          · exact older.trans (smaller e he head hh)
          · rcases List.mem_cons.mp he with rfl | he
            · cases hh
              exact at_time ▸ older
            · exact older.trans_le (larger e he head hh)
        · simp only [older, if_false]
          refine ⟨before, oldest, others, after ++ [(peer, first :: rest)], by simp [same],
            at_time, smaller, ?_⟩
          intro e he head hh
          rcases List.mem_append.mp he with he | he
          · exact larger e he head hh
          · cases List.mem_singleton.mp he
            cases hh
            exact not_lt.mp older

/-- What one call of `_evict_oldest` does: nothing when no packet is stored, otherwise
the first packet of the first queue whose head is oldest goes. -/
theorem evictOldest_cases (s : StoreAndForwardQueue) :
    (evictOldest s = s ∧ ∀ e ∈ s.queues.entries, e.2 = []) ∨
    ∃ peer first rest before after,
      s.queues.entries = before ++ (peer, first :: rest) :: after ∧
      s.queues.get? peer = some (first :: rest) ∧
      (∀ e ∈ before, ∀ head ∈ e.2.head?, first.enqueuedAt < head.enqueuedAt) ∧
      (∀ e ∈ after, ∀ head ∈ e.2.head?, first.enqueuedAt ≤ head.enqueuedAt) ∧
      evictOldest s = (s.uncount [first]).keepOrDelete peer rest := by
  have spec := oldestPeer_spec s.queues.entries
  cases best : oldestPeer s.queues.entries with
  | none =>
    simp only [best] at spec
    exact Or.inl ⟨by simp [evictOldest, best], spec⟩
  | some found =>
    obtain ⟨peer, time⟩ := found
    simp only [best] at spec
    obtain ⟨before, first, rest, after, same, rfl, smaller, larger⟩ := spec
    have found : s.queues.get? peer = some (first :: rest) :=
      InsertionMap.get?_eq_some.mpr (by simp [same])
    exact Or.inr ⟨peer, first, rest, before, after, same, found, smaller, larger,
      by simp [evictOldest, best, found]⟩

theorem shrinks_evictOldest (s : StoreAndForwardQueue) : Shrinks s s.evictOldest := by
  rcases evictOldest_cases s with ⟨same, _⟩ | ⟨peer, first, rest, _, _, _, found, _, _, same⟩
  · rw [same]
    exact .refl s
  · rw [same]
    exact (shrinks_keepOrDelete [first] rest found).1

/-- An eviction takes exactly one packet unless none is stored. -/
theorem heldPackets_evictOldest {s : StoreAndForwardQueue} (stored : 0 < s.heldPackets) :
    s.evictOldest.heldPackets + 1 = s.heldPackets := by
  rcases evictOldest_cases s with ⟨_, empty⟩ | ⟨peer, first, rest, _, _, _, found, _, _, same⟩
  · have none : s.heldPackets = 0 := by
      simp only [heldPackets, InsertionMap.total]
      exact List.sum_eq_zero fun n hn => by
        obtain ⟨e, he, rfl⟩ := List.mem_map.mp hn
        simp [empty e he]
    omega
  · rw [same]
    exact (shrinks_keepOrDelete [first] rest found).2

theorem shrinks_visits {cond : StoreAndForwardQueue → Bool} {s t : StoreAndForwardQueue}
    (visited : Loop.Visits cond evictOldest s t) : Shrinks s t :=
  visited.invariant (.refl s) fun _ h _ => h.trans (shrinks_evictOldest _)

end Bitchat.Mesh.StoreAndForwardQueue
