import Bitchat.Mesh.StoreForwardCaps

/-! When `enqueue` returns. The eviction loops are driven by the counters while
an eviction works on the queues, so packets that are counted but not stored are
what can keep a loop going for ever. -/
namespace Bitchat.Mesh.StoreAndForwardQueue
open Protocol Str

/-- Every iteration of an eviction loop entered at `s` takes a stored packet and counts
it out. -/
def Progresses (cond : StoreAndForwardQueue → Bool) (s : StoreAndForwardQueue) : Prop :=
  ∀ r, Loop.Visits cond evictOldest s r → cond r = true →
    r.evictOldest.heldPackets < r.heldPackets ∧
    r.evictOldest.currentTotalPackets < r.currentTotalPackets

/-- The call returns, and both of its loops make progress until they end. -/
structure Terminates [CaseMapping] (lim : Limits) (s : StoreAndForwardQueue) (target : PeerName)
    (packet : BitchatPacket) (now : Seconds) : Prop where
  returns : ∃ fuel result, s.enqueue lim fuel target packet now = some result
  packets : packetSize packet ≤ lim.maxTotalBytes →
    Progresses (tooManyPackets lim) (s.beforeEviction lim target now)
  bytes : ∀ fuel r, packetSize packet ≤ lim.maxTotalBytes →
    Loop.run (tooManyPackets lim) evictOldest fuel (s.beforeEviction lim target now) = some r →
    Progresses (tooManyBytes lim (packetSize packet)) r

/-- What was lost leaves room for a packet of the given size under both global caps. -/
def LeavesRoom (lim : Limits) (size : Nat) (s : StoreAndForwardQueue) : Prop :=
  s.lostPackets < lim.maxTotalPackets ∧
    (s.lostPackets = 0 ∨ s.lostBytes + size ≤ lim.maxTotalBytes)

section Loops
variable {lim : Limits} {s t : StoreAndForwardQueue} {size : Nat}

theorem Shrinks.leavesRoom (shrinks : Shrinks s t) (room : LeavesRoom lim size s) :
    LeavesRoom lim size t := by
  rw [LeavesRoom, shrinks.lostPackets, shrinks.lostBytes]
  exact room

theorem heldBytes_of_no_packet (none : s.heldPackets = 0) : s.heldBytes = 0 := by
  rw [heldPackets_eq] at none
  rw [heldBytes_eq, List.eq_nil_of_length_eq_zero none]
  rfl

theorem evictOldest_progress (stored : 0 < s.heldPackets) :
    s.evictOldest.heldPackets < s.heldPackets ∧
      s.evictOldest.currentTotalPackets < s.currentTotalPackets := by
  have fewer := heldPackets_evictOldest stored
  have same := (shrinks_evictOldest s).lostPackets
  simp only [lostPackets] at same
  omega

theorem stored_of_tooManyPackets (room : LeavesRoom lim size s)
    (enter : s.tooManyPackets lim = true) : 0 < s.heldPackets := by
  have few := room.1
  simp only [lostPackets] at few
  simp only [tooManyPackets, decide_eq_true_eq] at enter
  omega

theorem stored_of_tooManyBytes (room : LeavesRoom lim size s)
    (enter : s.tooManyBytes lim size = true) : 0 < s.heldPackets := by
  simp only [tooManyBytes, overBudget, Bool.and_eq_true, decide_eq_true_eq] at enter
  rcases room.2 with exact | small
  · simp only [lostPackets] at exact
    omega
  · by_contra empty
    have nothing := heldBytes_of_no_packet (s := s) (by omega)
    simp only [lostBytes] at small
    omega

/-- A loop entered only while a packet is stored ends and makes progress on the way. -/
theorem eviction_loop {cond : StoreAndForwardQueue → Bool}
    (stored : ∀ r, LeavesRoom lim size r → cond r = true → 0 < r.heldPackets)
    (room : LeavesRoom lim size s) :
    Progresses cond s ∧ ∃ t, ∀ fuel, s.heldPackets ≤ fuel →
      Loop.run cond evictOldest fuel s = some t := by
  constructor
  · intro r visited enter
    exact evictOldest_progress (stored r ((shrinks_visits visited).leavesRoom room) enter)
  · obtain ⟨t, ends, _⟩ := Loop.run_of_variant (P := LeavesRoom lim size)
      heldPackets (fun r here enter => ⟨(shrinks_evictOldest r).leavesRoom here,
        (evictOldest_progress (stored r here enter)).1⟩) room le_rfl
    exact ⟨t, fun fuel enough => Loop.run_mono ends enough⟩

theorem packets_loop_diverges (many : lim.maxTotalPackets ≤ s.lostPackets) (fuel : Nat) :
    Loop.run (tooManyPackets lim) evictOldest fuel s = none := by
  refine Loop.run_eq_none (P := fun r => (lim.maxTotalPackets : Int) ≤ r.lostPackets) ?_ many fuel
  intro r here
  refine ⟨?_, (shrinks_evictOldest r).lostPackets ▸ here⟩
  simp only [lostPackets] at here
  simp only [tooManyPackets, decide_eq_true_eq]
  omega

theorem bytes_loop_diverges (some : 0 < s.lostPackets)
    (many : lim.maxTotalBytes < s.lostBytes + size) (fuel : Nat) :
    Loop.run (tooManyBytes lim size) evictOldest fuel s = none := by
  refine Loop.run_eq_none (P := fun r => 0 < r.lostPackets ∧
    (lim.maxTotalBytes : Int) < r.lostBytes + size) ?_ ⟨some, many⟩ fuel
  rintro r ⟨lost, bytes⟩
  have kept := shrinks_evictOldest r
  refine ⟨?_, kept.lostPackets ▸ lost, kept.lostBytes ▸ bytes⟩
  simp only [lostPackets, lostBytes] at lost bytes
  simp only [tooManyBytes, overBudget, Bool.and_eq_true, decide_eq_true_eq]
  omega

end Loops

section Reachable
variable [CaseMapping] {lim : Limits} {s t : StoreAndForwardQueue}

/-- Packets get lost; they never come back. -/
theorem step_lostPackets_nonneg {op : Op} (lost : 0 ≤ s.lostPackets) (step : Step lim s op t) :
    0 ≤ t.lostPackets := by
  cases step with
  | enqueue returned =>
    rename_i target packet now accepted fuel
    rcases enqueue_cases returned with ⟨_, _, rfl⟩ | ⟨r, u, _, first, second, result⟩
    · exact (shrinks_pruneExpired lim now s).lostPackets ▸ lost
    · have shrinks := ((shrinks_beforeEviction lim target now s).trans
        (shrinks_visits (Loop.run_visits first).1)).trans
        (shrinks_visits (Loop.run_visits second).1)
      rw [← shrinks.lostPackets] at lost
      split at result
      · cases result
        exact lost
      · cases result
        simp only [lostPackets, append, heldPackets] at lost ⊢
        cases found : u.queues.get? (normalizePeerId target) with
        | none => simp only; omega
        | some queue =>
          have more := InsertionMap.total_set found
            (queue ++ [⟨packet, now, packetSize packet⟩]) List.length
          simp only [List.length_append, List.length_singleton] at more
          simp only
          omega
  | dequeueForPeer target now => exact (shrinks_dequeueForPeer lim target now s).lostPackets ▸ lost
  | pruneExpired now => exact (shrinks_pruneExpired lim now s).lostPackets ▸ lost
  | clear => exact le_rfl

/-- On every reachable state a call returns, each iteration taking a stored packet, exactly
when the packet is refused for its size or what was lost leaves room for it. -/
theorem terminates_iff_leavesRoom {history : List (Taken StoreAndForwardQueue Op)}
    (run : Run (Step lim) new history s) (target : PeerName) (packet : BitchatPacket)
    (now : Seconds) : Terminates lim s target packet now ↔
      lim.maxTotalBytes < packetSize packet ∨ LeavesRoom lim (packetSize packet) s := by
  have nonneg : 0 ≤ s.lostPackets := run.invariant (P := fun s => 0 ≤ s.lostPackets)
    le_rfl step_lostPackets_nonneg
  have start := shrinks_beforeEviction lim target now s
  constructor
  · rintro ⟨⟨fuel, ⟨accepted, t⟩, returned⟩, _, _⟩
    rcases enqueue_cases returned with ⟨big, _⟩ | ⟨r, u, small, first, second, _⟩
    · exact Or.inl big
    refine Or.inr ⟨?_, ?_⟩
    · by_contra many
      rw [packets_loop_diverges (start.lostPackets ▸ not_lt.mp many)] at first
      cases first
    · by_contra exceeds
      rw [not_or, not_le] at exceeds
      have reached := start.trans (shrinks_visits (Loop.run_visits first).1)
      rw [bytes_loop_diverges (by rw [reached.lostPackets]; omega)
        (by rw [reached.lostBytes]; exact exceeds.2)] at second
      cases second
  · rintro (big | room)
    · exact ⟨⟨0, (false, s.pruneExpired lim now), by simp [enqueue, big]⟩,
        fun small => absurd big (not_lt.mpr small), fun _ _ small => absurd big (not_lt.mpr small)⟩
    obtain ⟨progress, r, first⟩ := eviction_loop (fun _ => stored_of_tooManyPackets)
      (start.leavesRoom room)
    have ends := first _ le_rfl
    have roomAfter : ∀ fuel r, Loop.run (tooManyPackets lim) evictOldest fuel
        (s.beforeEviction lim target now) = some r → LeavesRoom lim (packetSize packet) r :=
      fun fuel r h => (start.trans (shrinks_visits (Loop.run_visits h).1)).leavesRoom room
    obtain ⟨_, u, second⟩ := eviction_loop (fun _ => stored_of_tooManyBytes) (roomAfter _ r ends)
    refine ⟨⟨max (s.beforeEviction lim target now).heldPackets r.heldPackets, ?_⟩,
      fun _ => progress, fun fuel r _ h =>
        (eviction_loop (fun _ => stored_of_tooManyBytes) (roomAfter fuel r h)).1⟩
    simp only [enqueue, first _ (le_max_left _ _), second _ (le_max_right _ _)]
    split
    · exact ⟨_, rfl⟩
    · split
      · exact ⟨_, rfl⟩
      · exact ⟨_, rfl⟩

end Reachable

section Hang
attribute [local instance] Str.asciiCase

theorem not_always_terminating : ¬ ∀ (lim : Limits)
    (history : List (Taken StoreAndForwardQueue Op)) (s : StoreAndForwardQueue),
    Run (Step lim) new history s → ∀ target packet now, Terminates lim s target packet now := by
  intro terminating
  obtain ⟨⟨fuel, result, returned⟩, _, _⟩ := terminating _ _ _ singleSlot_run alice emptyMessage 2
  have hangs : ∀ fuel, oneLost.enqueue singleSlot fuel alice emptyMessage 2 = none := by
    intro fuel
    simp only [enqueue, show ∀ fuel, Loop.run (tooManyPackets singleSlot) evictOldest fuel
      (oneLost.beforeEviction singleSlot alice 2) = none from
        packets_loop_diverges (by decide +kernel)]
    rfl
  rw [hangs] at returned
  cases returned

/-- The lost packet takes the only slot, and the next call does not return. -/
theorem singleSlot_hangs : ¬ Terminates singleSlot oneLost alice emptyMessage 2 := by
  rw [terminates_iff_leavesRoom singleSlot_run alice emptyMessage 2, LeavesRoom]
  decide +kernel

end Hang
end Bitchat.Mesh.StoreAndForwardQueue
