import Bitchat.Mesh.StoreForwardAccounting
import Mathlib.Algebra.Order.BigOperators.Group.List

/-! When the counters of the store-and-forward queue are right. An eviction in
`enqueue` may delete the very queue the new packet is about to be appended to;
the packet is then counted but stored nowhere. The packets that are evicted only
after the last packet of the target decide whether that happens. -/
namespace Bitchat.Mesh.StoreAndForwardQueue
open Protocol Str

def newest : QueuedPacket → List QueuedPacket → Seconds
  | first, [] => first.enqueuedAt
  | first, second :: rest => max first.enqueuedAt (newest second rest)

/-- What is still stored when the last packet of `key` is the next to be evicted, where
`time` is the newest clock value in the queue of `key`. The scan goes through the queues
in dictionary order and replaces its candidate only by a strictly older one. -/
def outlasting (time : Seconds) (key : Str) : List (Str × List QueuedPacket) → List QueuedPacket
  | [] => []
  | (peer, queue) :: later =>
    if peer = key then
      queue.getLast?.toList ++
        later.flatMap fun entry => entry.2.dropWhile fun item => item.enqueuedAt < time
    else (queue.dropWhile fun item => item.enqueuedAt ≤ time) ++ outlasting time key later

/-- The condition under which a call stores what it counts: the target has no packet when
the evictions start, or the new packet fits without evicting the target's last one. -/
def KeepsTarget [CaseMapping] (lim : Limits) (s : StoreAndForwardQueue) : Op → Prop
  | .enqueue target packet now =>
    lim.maxTotalBytes < packetSize packet ∨
    let start := s.beforeEviction lim target now
    match start.queues.get? (normalizePeerId target) with
    | some (first :: rest) =>
      let kept := outlasting (newest first rest) (normalizePeerId target) start.queues.entries
      kept.length < lim.maxTotalPackets ∧ bytesOf kept + packetSize packet ≤ lim.maxTotalBytes
    | _ => True
  | _ => True

section Outlasting
variable {key : Str} {before after : List (Str × List QueuedPacket)}

theorem outlasting_split (time : Seconds) (queue : List QueuedPacket)
    (other : ∀ e ∈ before, e.1 ≠ key) :
    outlasting time key (before ++ (key, queue) :: after) =
      (before.flatMap fun e => e.2.dropWhile fun item => item.enqueuedAt ≤ time) ++
      (queue.getLast?.toList ++
        after.flatMap fun e => e.2.dropWhile fun item => item.enqueuedAt < time) := by
  induction before with
  | nil => simp [outlasting]
  | cons e rest ih =>
    have here : e.1 ≠ key := other e (by simp)
    have there := ih fun e he => other e (List.mem_cons_of_mem _ he)
    simp only [List.cons_append, outlasting, here, if_false, there, List.flatMap_cons,
      List.append_assoc]

theorem outlasting_sublist (key : Str) (time : Seconds) (entries : List (Str × List QueuedPacket)) :
    (outlasting time key entries).Sublist (entries.flatMap Prod.snd) := by
  have parts : ∀ (p : QueuedPacket → Bool) (entries : List (Str × List QueuedPacket)),
      (entries.flatMap fun e => e.2.dropWhile p).Sublist (entries.flatMap Prod.snd) := by
    intro p entries
    induction entries with
    | nil => exact .slnil
    | cons e rest ih =>
      simp only [List.flatMap_cons]
      exact (List.dropWhile_sublist p).append ih
  induction entries with
  | nil => exact .slnil
  | cons e rest ih =>
    simp only [outlasting, List.flatMap_cons]
    split
    · refine List.Sublist.append ?_ (parts _ rest)
      cases last : e.2.getLast? with
      | none => exact List.nil_sublist _
      | some item => simpa using List.mem_of_getLast? last
    · exact (List.dropWhile_sublist _).append ih

theorem first_le_newest (first : QueuedPacket) (rest : List QueuedPacket) :
    first.enqueuedAt ≤ newest first rest := by
  cases rest with
  | nil => exact le_rfl
  | cons second rest => exact le_max_left _ _

theorem dropWhile_all {p : QueuedPacket → Bool} {queue : List QueuedPacket}
    (keep : ∀ head ∈ queue.head?, p head = false) : queue.dropWhile p = queue := by
  cases queue with
  | nil => rfl
  | cons head rest => simp [keep head (by simp)]

theorem dropWhile_le_max {a b : Seconds} {queue : List QueuedPacket}
    (later : ∀ head ∈ queue.head?, a < head.enqueuedAt) :
    (queue.dropWhile fun item => item.enqueuedAt ≤ max a b) =
      queue.dropWhile fun item => item.enqueuedAt ≤ b := by
  cases queue with
  | nil => rfl
  | cons head rest =>
    have above : a < head.enqueuedAt := later head (by simp)
    by_cases low : head.enqueuedAt ≤ b
    · rw [max_eq_right (above.le.trans low)]
    · have high : ¬ head.enqueuedAt ≤ max a b := by
        simp only [le_max_iff, not_or]
        exact ⟨not_le.mpr above, low⟩
      rw [dropWhile_all (by simpa using high), dropWhile_all (by simpa using low)]

theorem dropWhile_lt_max {a b : Seconds} {queue : List QueuedPacket}
    (later : ∀ head ∈ queue.head?, a ≤ head.enqueuedAt) :
    (queue.dropWhile fun item => item.enqueuedAt < max a b) =
      queue.dropWhile fun item => item.enqueuedAt < b := by
  cases queue with
  | nil => rfl
  | cons head rest =>
    have above : a ≤ head.enqueuedAt := later head (by simp)
    by_cases low : head.enqueuedAt < b
    · rw [max_eq_right (above.trans low.le)]
    · have high : ¬ head.enqueuedAt < max a b := by
        simp only [lt_max_iff, not_or]
        exact ⟨not_lt.mpr above, low⟩
      rw [dropWhile_all (by simpa using high), dropWhile_all (by simpa using low)]

/-- Another peer's oldest packet does not outlast the target's last one. -/
theorem outlasting_evict {time : Seconds} {peer : Str} {oldest : QueuedPacket}
    {others : List QueuedPacket} (other : peer ≠ key)
    (passed : key ∈ before.map Prod.fst → oldest.enqueuedAt < time)
    (due : oldest.enqueuedAt ≤ time) :
    outlasting time key
        (before ++ (if others.isEmpty then [] else [(peer, others)]) ++ after) =
      outlasting time key (before ++ (peer, oldest :: others) :: after) := by
  induction before with
  | nil => cases others <;> simp [outlasting, other, due]
  | cons e rest ih =>
    by_cases here : e.1 = key
    · have gone : oldest.enqueuedAt < time := passed (by simp [here])
      cases others <;> simp [outlasting, here, gone]
    · have there := ih fun h => passed (List.mem_cons_of_mem _ h)
      simp only [List.append_assoc] at there
      simp only [List.cons_append, List.append_assoc, outlasting, here, if_false, there]

end Outlasting

/-- One eviction while `key` has packets: either the last of them stays and what outlasts
it is unchanged, or it was the next to go and everything else stored outlasts it. -/
theorem evictOldest_target {s : StoreAndForwardQueue} {key : Str} {first : QueuedPacket}
    {rest : List QueuedPacket} (found : s.queues.get? key = some (first :: rest)) :
    (∃ second others, s.evictOldest.queues.get? key = some (second :: others) ∧
      outlasting (newest second others) key s.evictOldest.queues.entries =
        outlasting (newest first rest) key s.queues.entries) ∨
    (s.evictOldest.queues.get? key = none ∧
      outlasting (newest first rest) key s.queues.entries = s.queues.entries.flatMap Prod.snd) := by
  rcases evictOldest_cases s with ⟨_, empty⟩ |
    ⟨peer, oldest, others, before, after, same, stored, earlier, later, evicted⟩
  · exact absurd (empty _ (InsertionMap.get?_eq_some.mp found)) (by simp)
  have distinct := s.queues.nodup
  simp only [same, List.map_append, List.map_cons, List.nodup_append, List.nodup_cons] at distinct
  have notBefore : ∀ e ∈ before, e.1 ≠ peer := fun e he hk =>
    distinct.2.2 peer (List.mem_map.mpr ⟨e, he, hk⟩) peer (by simp) rfl
  have notAfter : ∀ e ∈ after, e.1 ≠ peer := fun e he hk =>
    distinct.2.1.1 (List.mem_map.mpr ⟨e, he, hk⟩)
  by_cases target : peer = key
  · subst target
    rw [found] at stored
    obtain ⟨rfl, rfl⟩ := List.cons.inj (Option.some.inj stored)
    rw [same, outlasting_split _ _ notBefore]
    cases rest with
    | nil =>
      refine Or.inr ⟨by simp [evicted, keepOrDelete], ?_⟩
      simp only [newest, List.flatMap_append, List.flatMap_cons]
      congr 1
      · exact List.flatMap_congr fun e he =>
          dropWhile_all fun head hh => decide_eq_false (not_le.mpr (earlier e he head hh))
      · congr 1
        exact List.flatMap_congr fun e he =>
          dropWhile_all fun head hh => decide_eq_false (not_lt.mpr (later e he head hh))
    | cons second others =>
      refine Or.inl ⟨second, others, by simp [evicted, keepOrDelete], ?_⟩
      have entries : s.evictOldest.queues.entries =
          before ++ (peer, second :: others) :: after := by
        rw [evicted]
        exact InsertionMap.set_entries same notBefore notAfter _
      rw [entries, outlasting_split _ _ notBefore]
      simp only [newest]
      congr 1
      · exact List.flatMap_congr fun e he => (dropWhile_le_max (earlier e he)).symm
      · congr 1
        exact List.flatMap_congr fun e he => (dropWhile_lt_max (later e he)).symm
  · have stays : s.evictOldest.queues.get? key = some (first :: rest) := by
      rw [evicted]
      cases others <;> simpa [keepOrDelete, uncount, Ne.symm target] using found
    have entries : s.evictOldest.queues.entries =
        before ++ (if others.isEmpty then [] else [(peer, others)]) ++ after := by
      rw [evicted]
      cases others with
      | nil =>
        simpa [keepOrDelete, uncount] using InsertionMap.erase_entries same notBefore notAfter
      | cons =>
        simpa [keepOrDelete, uncount] using InsertionMap.set_entries same notBefore notAfter _
    refine Or.inl ⟨first, rest, stays, ?_⟩
    have place := InsertionMap.get?_eq_some.mp found
    have newer := first_le_newest first rest
    rw [same] at place
    rw [entries, same]
    refine outlasting_evict target (fun inBefore => ?_) ?_
    · obtain ⟨e, he, rfl⟩ := List.mem_map.mp inBefore
      have queue : e.2 = first :: rest := Option.some.inj
        ((InsertionMap.get?_eq_some_of_mem (by simp [same, he])).symm.trans found)
      exact (earlier e he first (by simp [queue])).trans_le newer
    · rcases List.mem_append.mp place with inBefore | place
      · exact ((earlier _ inBefore first rfl).trans_le newer).le
      · rcases List.mem_cons.mp place with here | inAfter
        · exact absurd (congrArg Prod.fst here).symm target
        · exact (later _ inAfter first rfl).trans newer

theorem get?_evictOldest_of_no_packet {s : StoreAndForwardQueue} {key : Str}
    (none : s.queues.get? key = none ∨ s.queues.get? key = some []) :
    s.evictOldest.queues.get? key = s.queues.get? key := by
  rcases evictOldest_cases s with ⟨same, _⟩ | ⟨peer, oldest, others, _, _, _, stored, _, _, same⟩
  · rw [same]
  · have other : key ≠ peer := by
      rintro rfl
      simp [stored] at none
    rw [same]
    cases others <;> simp [keepOrDelete, uncount, other]

theorem heldPackets_eq (s : StoreAndForwardQueue) :
    s.heldPackets = (s.queues.entries.flatMap Prod.snd).length := by
  simp [heldPackets, InsertionMap.total, List.length_flatMap]

theorem heldBytes_eq (s : StoreAndForwardQueue) :
    s.heldBytes = bytesOf (s.queues.entries.flatMap Prod.snd) := by
  simp only [heldBytes, InsertionMap.total]
  induction s.queues.entries with
  | nil => rfl
  | cons e rest ih => simp [ih]

/-- `key` has packets, and `kept` outlasts the last of them. -/
def Targeted (key : Str) (kept : List QueuedPacket) (s : StoreAndForwardQueue) : Prop :=
  ∃ first rest, s.queues.get? key = some (first :: rest) ∧
    outlasting (newest first rest) key s.queues.entries = kept

section Target
variable {lim : Limits} {s t : StoreAndForwardQueue} {key : Str} {kept : List QueuedPacket}

theorem Targeted.evictOldest (targeted : Targeted key kept s) :
    Targeted key kept s.evictOldest ∨ (s.evictOldest.queues.get? key = none ∧
      s.heldPackets = kept.length ∧ s.heldBytes = bytesOf kept) := by
  obtain ⟨first, rest, found, rfl⟩ := targeted
  rcases evictOldest_target found with ⟨second, others, stays, same⟩ | ⟨gone, all⟩
  · exact Or.inl ⟨second, others, stays, same⟩
  · exact Or.inr ⟨gone, by rw [heldPackets_eq, all], by rw [heldBytes_eq, all]⟩

theorem Targeted.held (targeted : Targeted key kept s) :
    0 < s.heldPackets ∧ kept.length ≤ s.heldPackets ∧ bytesOf kept ≤ s.heldBytes := by
  obtain ⟨first, rest, found, rfl⟩ := targeted
  have part := outlasting_sublist key (newest first rest) s.queues.entries
  have stored : first ∈ s.queues.entries.flatMap Prod.snd :=
    List.mem_flatMap.mpr ⟨_, InsertionMap.get?_eq_some.mp found, by simp⟩
  rw [heldPackets_eq, heldBytes_eq]
  exact ⟨List.length_pos_of_mem stored, part.length_le,
    (part.map _).sum_le_sum fun _ _ => Nat.zero_le _⟩

/-- Evictions that stop at the caps keep the target's queue when what outlasts it and the
new packet fit under them. -/
theorem Targeted.visits {cond : StoreAndForwardQueue → Bool} (targeted : Targeted key kept s)
    (ok : Accounted lim s)
    (exits : ∀ r, Accounted lim r → r.heldPackets = kept.length → r.heldBytes = bytesOf kept →
      cond r = false)
    (visited : Loop.Visits cond StoreAndForwardQueue.evictOldest s t) :
    Targeted key kept t ∧ Accounted lim t := by
  refine visited.invariant (P := fun r => Targeted key kept r ∧ Accounted lim r)
    ⟨targeted, ok⟩ ?_
  rintro r ⟨here, okHere⟩ enter
  refine ⟨?_, (shrinks_evictOldest r).accounted okHere⟩
  rcases here.evictOldest with stays | ⟨_, packets, bytes⟩
  · exact stays
  · exact absurd enter (by simp [exits r okHere packets bytes])

theorem Targeted.dropped {cond : StoreAndForwardQueue → Bool} (targeted : Targeted key kept s)
    (visited : Loop.Visits cond StoreAndForwardQueue.evictOldest s t) :
    Targeted key kept t ∨ t.queues.get? key = none := by
  refine visited.invariant (P := fun r => Targeted key kept r ∨ r.queues.get? key = none)
    (Or.inl targeted) ?_
  rintro r (here | gone) _
  · exact here.evictOldest.imp_right And.left
  · exact Or.inr ((get?_evictOldest_of_no_packet (Or.inl gone)).trans gone)

theorem get?_visits_of_no_packet {cond : StoreAndForwardQueue → Bool}
    (none : s.queues.get? key = none ∨ s.queues.get? key = some [])
    (visited : Loop.Visits cond StoreAndForwardQueue.evictOldest s t) :
    t.queues.get? key = s.queues.get? key := by
  refine visited.invariant (P := fun r => r.queues.get? key = s.queues.get? key) rfl ?_
  intro r same _
  exact (get?_evictOldest_of_no_packet (same ▸ none)).trans same

/-- The target's queue is in the dictionary and below the per-peer limit when the
evictions start. -/
theorem beforeEviction_target [CaseMapping] (target : PeerName) (now : Seconds)
    (ok : Accounted lim s) :
    ∃ queue, (s.beforeEviction lim target now).queues.get? (normalizePeerId target) = some queue ∧
      queue.length < lim.maxPerPeer := by
  have pruned := (shrinks_pruneExpired lim now s).accounted ok
  have present : ∃ queue, ((s.pruneExpired lim now).setDefault
      (normalizePeerId target)).queues.get? (normalizePeerId target) = some queue ∧
      queue.length ≤ lim.maxPerPeer := by
    unfold setDefault
    split
    · rename_i known
      obtain ⟨queue, found⟩ := InsertionMap.contains_iff.mp known
      exact ⟨queue, found, pruned.perPeer _ _ found⟩
    · exact ⟨[], by simp, by simp⟩
  obtain ⟨queue, found, bound⟩ := present
  have positive := lim.maxPerPeer_pos
  simp only [beforeEviction, evictFromPeer, found]
  cases queue with
  | nil => exact ⟨[], found, positive⟩
  | cons first rest =>
    simp only [List.length_cons] at bound
    by_cases full : lim.maxPerPeer ≤ rest.length + 1
    · exact ⟨rest, by simp [full], by omega⟩
    · exact ⟨first :: rest, by simp [full, found], by simp only [List.length_cons]; omega⟩

/-- The append keeps the counters right exactly when the queue is still in the dictionary. -/
theorem append_accounted_iff {item : QueuedPacket} (ok : Accounted lim s)
    (packets : s.tooManyPackets lim = false) (bytes : s.overBudget lim item.byteSize = false)
    (short : ∀ queue, s.queues.get? key = some queue → queue.length < lim.maxPerPeer) :
    Accounted lim (s.append key item) ↔ s.queues.get? key ≠ none := by
  have countPackets := ok.packets
  have countBytes := ok.bytes
  simp only [tooManyPackets, decide_eq_false_iff_not, not_le] at packets
  simp only [overBudget, decide_eq_false_iff_not, not_lt] at bytes
  cases found : s.queues.get? key with
  | none =>
    simp only [ne_eq, not_true, iff_false]
    intro after
    have := after.packets
    simp only [append, found, heldPackets] at this countPackets
    omega
  | some queue =>
    simp only [ne_eq, reduceCtorEq, not_false_iff, iff_true]
    have morePackets := InsertionMap.total_set found (queue ++ [item]) List.length
    have moreBytes := InsertionMap.total_set found (queue ++ [item]) bytesOf
    simp only [List.length_append, List.length_singleton] at morePackets
    simp only [bytesOf_append, bytesOf_cons, bytesOf_nil] at moreBytes
    simp only [heldPackets] at countPackets
    simp only [heldBytes] at countBytes
    refine ⟨?_, ?_, ?_, ?_, ?_⟩ <;> simp only [append, found, heldPackets, heldBytes]
    · omega
    · omega
    · intro peer stored
      simp only [InsertionMap.get?_set]
      split
      · rintro h
        have := short queue found
        cases h
        simp only [List.length_append, List.length_singleton]
        omega
      · exact ok.perPeer peer stored
    · omega
    · omega

theorem tooManyBytes_of_no_packet {size : Nat} (ok : Accounted lim s)
    (fits : size ≤ lim.maxTotalBytes) (left : s.tooManyBytes lim size = false) :
    s.overBudget lim size = false := by
  by_contra exceeds
  rw [Bool.not_eq_false] at exceeds
  simp only [tooManyBytes, exceeds, Bool.true_and, decide_eq_false_iff_not, not_lt] at left
  have empty : s.heldPackets = 0 := by have := ok.packets; omega
  have nothing : s.heldBytes = 0 := by
    rw [heldPackets_eq] at empty
    rw [heldBytes_eq, List.eq_nil_of_length_eq_zero empty]
    rfl
  have bytes := ok.bytes
  simp only [overBudget, decide_eq_true_eq] at exceeds
  omega

/-- What a call of `enqueue` that returned did. -/
theorem enqueue_cases [CaseMapping] {fuel : Nat} {target : PeerName} {packet : BitchatPacket}
    {now : Seconds} {accepted : Bool}
    (returned : s.enqueue lim fuel target packet now = some (accepted, t)) :
    (lim.maxTotalBytes < packetSize packet ∧ accepted = false ∧ t = s.pruneExpired lim now) ∨
    ∃ r u, packetSize packet ≤ lim.maxTotalBytes ∧
      Loop.run (tooManyPackets lim) evictOldest fuel (s.beforeEviction lim target now) = some r ∧
      Loop.run (tooManyBytes lim (packetSize packet)) evictOldest fuel r = some u ∧
      (accepted, t) = if u.overBudget lim (packetSize packet) then (false, u)
        else (true, u.append (normalizePeerId target) ⟨packet, now, packetSize packet⟩) := by
  unfold enqueue at returned
  split at returned
  · rename_i big
    cases returned
    exact Or.inl ⟨big, rfl, rfl⟩
  · rename_i small
    cases first : Loop.run (tooManyPackets lim) evictOldest fuel
        (s.beforeEviction lim target now) with
    | none => simp [first] at returned
    | some r =>
      cases second : Loop.run (tooManyBytes lim (packetSize packet)) evictOldest fuel r with
      | none => simp [first, second] at returned
      | some u =>
        refine Or.inr ⟨r, u, not_lt.mp small, rfl, second, ?_⟩
        simp only [first, second] at returned
        split at returned <;> simp_all

/-- `enqueue` refuses what is too big. Any other packet is appended, and the target's queue is
still in the dictionary exactly when the evictions spare it. -/
theorem enqueue_appends [CaseMapping] {fuel : Nat} {target : PeerName}
    {packet : BitchatPacket} {now : Seconds} {accepted : Bool} (ok : Accounted lim s)
    (returned : s.enqueue lim fuel target packet now = some (accepted, t)) :
    (lim.maxTotalBytes < packetSize packet ∧ accepted = false ∧ t = s.pruneExpired lim now) ∨
    ∃ u : StoreAndForwardQueue, accepted = true ∧
      t = u.append (normalizePeerId target) ⟨packet, now, packetSize packet⟩ ∧
      (Accounted lim t ↔ u.queues.get? (normalizePeerId target) ≠ none) ∧
      (u.queues.get? (normalizePeerId target) ≠ none ↔
        KeepsTarget lim s (.enqueue target packet now)) := by
  rcases enqueue_cases returned with refused | ⟨r, u, small, first, second, result⟩
  · exact Or.inl refused
  obtain ⟨visitedFirst, packetsLeft⟩ := Loop.run_visits first
  obtain ⟨visitedSecond, bytesLeft⟩ := Loop.run_visits second
  have okStart := (shrinks_beforeEviction lim target now s).accounted ok
  have shrinksFirst := shrinks_visits visitedFirst
  have shrinksSecond := shrinks_visits visitedSecond
  have okFirst := shrinksFirst.accounted okStart
  have okSecond := shrinksSecond.accounted okFirst
  have room : u.tooManyPackets lim = false := by
    have := okFirst.packets
    have := okSecond.packets
    have := shrinksSecond.heldPackets
    simp only [tooManyPackets, decide_eq_false_iff_not, not_le] at packetsLeft ⊢
    omega
  have budget := tooManyBytes_of_no_packet okSecond small bytesLeft
  obtain ⟨queue, found, short⟩ := beforeEviction_target target now ok
  have shorter : ∀ left, u.queues.get? (normalizePeerId target) = some left →
      left.length < lim.maxPerPeer := by
    intro left stays
    rcases (shrinksFirst.trans shrinksSecond).queues _ _ stays with rfl | ⟨gone, whole⟩
    · exact lim.maxPerPeer_pos
    · rw [found] at whole
      cases whole
      rw [List.length_append] at short
      omega
  rw [budget, if_neg (by simp), Prod.mk.injEq] at result
  obtain ⟨rfl, rfl⟩ := result
  refine Or.inr ⟨u, rfl, rfl, append_accounted_iff okSecond room budget shorter, ?_⟩
  simp only [KeepsTarget, found, not_lt.mpr small, false_or]
  cases queue with
  | nil =>
    have none := get?_visits_of_no_packet (Or.inr found) visitedFirst
    have none' := get?_visits_of_no_packet (Or.inr (none.trans found)) visitedSecond
    simp [none', none, found]
  | cons head rest =>
    have targeted : Targeted (normalizePeerId target)
        (outlasting (newest head rest) (normalizePeerId target)
          (s.beforeEviction lim target now).queues.entries)
        (s.beforeEviction lim target now) := ⟨head, rest, found, rfl⟩
    constructor
    · intro stays
      have kept : ∀ kept, Targeted (normalizePeerId target) kept
          (s.beforeEviction lim target now) → Targeted (normalizePeerId target) kept u := by
        intro kept start
        rcases start.dropped visitedFirst with here | gone
        · exact (here.dropped visitedSecond).resolve_right stays
        · exact absurd ((get?_visits_of_no_packet (Or.inl gone) visitedSecond).trans gone) stays
      obtain ⟨_, packets, bytes⟩ := (kept _ targeted).held
      have := okSecond.packets
      have := okSecond.bytes
      simp only [tooManyPackets, decide_eq_false_iff_not, not_le] at room
      simp only [overBudget, decide_eq_false_iff_not, not_lt] at budget
      omega
    · rintro ⟨packets, bytes⟩
      have afterFirst := targeted.visits okStart (fun r okHere count _ => by
        have := okHere.packets
        simp only [tooManyPackets, decide_eq_false_iff_not, not_le]
        omega) visitedFirst
      have afterSecond := afterFirst.1.visits afterFirst.2 (fun r okHere _ count => by
        have := okHere.bytes
        simp only [tooManyBytes, overBudget, Bool.and_eq_false_iff, decide_eq_false_iff_not,
          not_lt]
        omega) visitedSecond
      obtain ⟨_, _, stays, _⟩ := afterSecond.1
      simp [stays]

/-- `enqueue` keeps the accounting exactly when it does not evict its own target. -/
theorem enqueue_accounted_iff [CaseMapping] {fuel : Nat} {target : PeerName}
    {packet : BitchatPacket} {now : Seconds} {accepted : Bool} (ok : Accounted lim s)
    (returned : s.enqueue lim fuel target packet now = some (accepted, t)) :
    Accounted lim t ↔ KeepsTarget lim s (.enqueue target packet now) := by
  rcases enqueue_appends ok returned with ⟨big, _, rfl⟩ | ⟨u, _, _, accounted, keeps⟩
  · exact iff_of_true ((shrinks_pruneExpired lim now s).accounted ok) (Or.inl big)
  · exact accounted.trans keeps

/-- The packet waits in the queue of its target. -/
def Holds [CaseMapping] (target : PeerName) (packet : BitchatPacket) (s : StoreAndForwardQueue) : Prop :=
  ∃ queue ∈ s.queues.get? (normalizePeerId target), packet ∈ queue.map QueuedPacket.packet

/-- An accepted packet is in the queue exactly when its target's queue is kept. -/
theorem enqueue_holds_iff [CaseMapping] {fuel : Nat} {target : PeerName}
    {packet : BitchatPacket} {now : Seconds} {accepted : Bool} (ok : Accounted lim s)
    (returned : s.enqueue lim fuel target packet now = some (accepted, t)) :
    (accepted = true → t.Holds target packet) ↔ KeepsTarget lim s (.enqueue target packet now) := by
  rcases enqueue_appends ok returned with ⟨big, rfl, _⟩ | ⟨u, rfl, rfl, _, keeps⟩
  · exact iff_of_true (fun accepted => absurd accepted (by decide)) (Or.inl big)
  · rw [← keeps]
    simp only [forall_const, Holds, append]
    cases found : u.queues.get? (normalizePeerId target) with
    | none => simp [found]
    | some queue => simp

theorem dequeueForPeer_nothing [CaseMapping] {target : PeerName} {now : Seconds}
    (nothing : s.hasPending target = false) : (s.dequeueForPeer lim target now).1 = [] := by
  unfold hasPending at nothing
  unfold dequeueForPeer
  cases found : s.queues.get? (normalizePeerId target) with
  | none => simp [found]
  | some queue =>
    obtain rfl : queue = [] := by simpa [found] using nothing
    simp [found]

theorem step_accounted_iff [CaseMapping] {op : Op} (ok : Accounted lim s)
    (step : Step lim s op t) : Accounted lim t ↔ KeepsTarget lim s op := by
  cases step with
  | enqueue returned => exact enqueue_accounted_iff ok returned
  | dequeueForPeer target now =>
    exact iff_of_true ((shrinks_dequeueForPeer lim target now s).accounted ok) trivial
  | pruneExpired now =>
    exact iff_of_true ((shrinks_pruneExpired lim now s).accounted ok) trivial
  | clear => exact iff_of_true (new_accounted lim) trivial

/-- In a run from the empty queue the counters and caps are right after every call exactly
when no call evicts the queue it then appends to. -/
theorem accounted_iff_keepsTarget [CaseMapping] {history : List (Taken StoreAndForwardQueue Op)}
    (run : Run (Step lim) new history s) :
    (∀ e ∈ history, Accounted lim e.after) ↔
      ∀ e ∈ history, KeepsTarget lim e.before e.label :=
  run.invariant_iff (new_accounted lim) step_accounted_iff

end Target

section Lost
attribute [local instance] Str.asciiCase

/-- One packet in all, so that a second packet for the same peer evicts the first. -/
def singleSlot : Limits := { maxTotalPackets := 1, maxPerPeer := 2, maxTotalBytes := 1000 }

def emptyMessage : BitchatPacket :=
  .plainMessage (List.replicate 8 0) [] List.length_replicate (Nat.zero_le _)

def alice : PeerName := .str ['a']

def oneStored : StoreAndForwardQueue where
  queues := ⟨[(['a'], [⟨emptyMessage, 0, 32⟩])], by decide⟩
  currentTotalPackets := 1
  currentTotalBytes := 32

def oneLost : StoreAndForwardQueue where
  queues := .empty
  currentTotalPackets := 1
  currentTotalBytes := 32

theorem singleSlot_run : Run (Step singleSlot) new
    [⟨new, .enqueue alice emptyMessage 0, oneStored⟩,
      ⟨oneStored, .enqueue alice emptyMessage 1, oneLost⟩] oneLost := by
  have first : new.enqueue singleSlot 1 alice emptyMessage 0 =
      some (true, oneStored) := by decide +kernel
  have second : oneStored.enqueue singleSlot 1 alice emptyMessage 1 =
      some (true, oneLost) := by decide +kernel
  exact (Run.nil.snoc (.enqueue first)).snoc (.enqueue second)

theorem not_always_accounted : ¬ ∀ (lim : Limits) (history : List (Taken StoreAndForwardQueue Op))
    (s : StoreAndForwardQueue), Run (Step lim) new history s → Accounted lim s := by
  intro accounted
  have packets := (accounted _ _ _ singleSlot_run).packets
  exact absurd packets (by decide +kernel)

theorem singleSlot_loses_a_packet : ¬ ∀ e ∈ [⟨new, .enqueue alice emptyMessage 0, oneStored⟩,
      ⟨oneStored, .enqueue alice emptyMessage 1, oneLost⟩],
    KeepsTarget singleSlot (Taken.before e) e.label := by
  rw [← accounted_iff_keepsTarget singleSlot_run]
  intro always
  exact absurd (always ⟨oneStored, .enqueue alice emptyMessage 1, oneLost⟩ (by simp)).packets
    (by decide +kernel)

end Lost

end Bitchat.Mesh.StoreAndForwardQueue
