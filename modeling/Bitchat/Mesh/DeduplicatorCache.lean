import Bitchat.Crypto.Laws
import Bitchat.Data.Recency
import Bitchat.Data.Run
import Bitchat.Mesh.Deduplicator
import Mathlib.Algebra.Order.Group.Defs

/-! What the duplicate filter remembers. Its entries are last records in the order of their
times, as long as the clock does not run backwards, and an entry is missing only when it has
expired or when as many others were recorded after it as the filter has places. -/
namespace Bitchat.Mesh.PacketDeduplicator
open Crypto Protocol Str

inductive Call where
  | record (packet : BitchatPacket) (now : Seconds)
  | checkAndRecord (packet : BitchatPacket) (now : Seconds)
  | isDuplicate (packet : BitchatPacket) (now : Seconds)
  | pruneExpired (now : Seconds)

def Call.now : Call → Seconds
  | record _ now | checkAndRecord _ now | isDuplicate _ now | pruneExpired now => now

section Steps
variable {lim : DeduplicatorLimits} {now later : Seconds} {s : PacketDeduplicator} {id : Str}
  {log : List (Str × Seconds)}

/-- The filter holds the last records of a log. -/
structure Remembers (lim : DeduplicatorLimits) (now : Seconds) (log : List (Str × Seconds))
    (s : PacketDeduplicator) : Prop where
  window : Recency.Window lim.maxEntries (fun t => expired lim now t) log s.entries.entries
  newestFirst : log.Pairwise fun d e => e.2 ≤ d.2
  past : ∀ e ∈ log, e.2 ≤ now

theorem expired_mono (ordered : now ≤ later) {t : Seconds} (old : expired lim now t) :
    expired lim later t := by
  rw [expired, decide_eq_true_eq] at old ⊢
  exact old.trans_le (sub_le_sub_right ordered t)

theorem recordId_entries_known {t : Seconds} (found : s.entries.get? id = some t) :
    (s.recordId lim now id).entries.entries = (s.entries.erase id).entries ++ [(id, now)] := by
  rw [recordId, if_pos (InsertionMap.contains_iff.mpr ⟨t, found⟩)]
  exact InsertionMap.set_entries_new (by simp) now

theorem recordId_entries_new (fresh : s.entries.get? id = none) :
    (s.recordId lim now id).entries.entries =
      (if lim.maxEntries ≤ s.entries.size then s.entries.entries.tail else s.entries.entries) ++
        [(id, now)] := by
  have unknown : ¬ s.entries.contains id := by simp [InsertionMap.contains, fresh]
  rw [recordId, if_neg unknown]
  split
  · refine InsertionMap.set_entries_new ?_ now
    rcases InsertionMap.get?_popFirst (m := s.entries) (k := id) with same | ⟨gone, _⟩
    · exact same.trans fresh
    · exact gone
  · exact InsertionMap.set_entries_new fresh now

namespace Remembers

theorem empty : Remembers lim now [] {} := ⟨.empty, .nil, by simp⟩

theorem wait (h : Remembers lim now log s) (ordered : now ≤ later) : Remembers lim later log s :=
  ⟨h.window.mono fun _ => expired_mono ordered, h.newestFirst,
    fun e member => (h.past e member).trans ordered⟩

theorem chronological (h : Remembers lim now log s) :
    s.entries.entries.Pairwise fun d e => d.2 ≤ e.2 := by
  have sorted := h.newestFirst.sublist (h.window.ordered.trans Recency.latest_sublist)
  rwa [List.pairwise_reverse] at sorted

theorem get? (h : Remembers lim now log s) {t : Seconds} (found : s.entries.get? id = some t) :
    Recency.last id log = some t := by
  rw [← Recency.mem_latest]
  exact h.window.ordered.subset (List.mem_reverse.mpr (InsertionMap.get?_eq_some.mp found))

/-- Expired entries are the first ones, so the scan that stops at a live entry finds all. -/
theorem pruned (h : Remembers lim now log s) :
    (s.pruneExpired lim now).entries.entries =
      s.entries.entries.filter fun e => !expired lim now e.2 := by
  have once : s.entries.entries.Pairwise fun d e => expired lim now e.2 → expired lim now d.2 :=
    h.chronological.imp fun older old => by
      rw [expired, decide_eq_true_eq] at old ⊢
      exact old.trans_le (sub_le_sub_left older now)
  exact Recency.dropWhile_eq_filter once

theorem pruneExpired (h : Remembers lim now log s) :
    Remembers lim now log (s.pruneExpired lim now) := by
  refine ⟨h.window.drop (List.dropWhile_sublist _) fun e member => ?_, h.newestFirst, h.past⟩
  rw [h.pruned, List.mem_filter]
  by_cases old : expired lim now e.2
  · exact Or.inr old
  · exact Or.inl ⟨member, by simpa using old⟩

theorem isIdDuplicate (h : Remembers lim now log s) :
    Remembers lim now log (s.isIdDuplicate lim now id).2 := by
  unfold PacketDeduplicator.isIdDuplicate
  cases found : s.entries.get? id with
  | none => exact h
  | some t =>
    simp only
    split
    · next old =>
      refine ⟨h.window.drop List.filter_sublist fun e member => ?_, h.newestFirst, h.past⟩
      by_cases same : e.1 = id
      · obtain rfl : e.2 = t := Option.some.inj ((InsertionMap.get?_eq_some_of_mem member).symm.trans
          (same ▸ found))
        exact Or.inr old
      · exact Or.inl (List.mem_filter.mpr ⟨member, by simpa using same⟩)
    · exact h

theorem recordId (h : Remembers lim now log s) :
    Remembers lim now ((id, now) :: log) (s.recordId lim now id) := by
  refine ⟨?_, List.pairwise_cons.mpr ⟨h.past, h.newestFirst⟩, fun e member => ?_⟩
  · cases found : s.entries.get? id with
    | some t =>
      rw [recordId_entries_known found]
      refine h.window.record List.filter_sublist (fun e member => ?_) ?_ fun e member other => ?_
      · simpa using (List.mem_filter.mp member).2
      · have fewer := InsertionMap.size_erase (InsertionMap.contains_iff.mpr ⟨t, found⟩)
        exact Nat.lt_of_succ_le (fewer.le.trans h.window.size)
      · exact Or.inl (List.mem_filter.mpr ⟨member, by simpa using other⟩)
    | none =>
      have others : ∀ e ∈ s.entries.entries, e.1 ≠ id := fun e member same =>
        InsertionMap.get?_eq_none.mp found (List.mem_map.mpr ⟨e, member, same⟩)
      rw [recordId_entries_new found]
      split
      · next full =>
        have window := h.window
        cases same : s.entries.entries with
        | nil => simp [InsertionMap.size, same, Nat.ne_of_gt lim.maxEntries_pos] at full
        | cons e rest =>
          rw [InsertionMap.size, same] at full
          rw [same] at window others
          exact window.evict full others
      · next room =>
        exact h.window.record (List.Sublist.refl _) others (not_le.mp room)
          fun e member _ => Or.inl member
  · rcases List.mem_cons.mp member with rfl | member
    · exact le_rfl
    · exact h.past e member

end Remembers
end Steps

variable [Primitives] (lim : DeduplicatorLimits)

def Call.perform (s : PacketDeduplicator) : Call → PacketDeduplicator
  | record packet now => s.record lim now packet
  | checkAndRecord packet now => (s.checkAndRecord lim now packet).2
  | isDuplicate packet now => (s.isDuplicate lim now packet).2
  | pruneExpired now => s.pruneExpired lim now

def Called (s : PacketDeduplicator) (call : Call) (t : PacketDeduplicator) : Prop :=
  t = call.perform lim s

/-- What a call recorded. -/
def recorded (e : Taken PacketDeduplicator Call) : List (Str × Seconds) :=
  match e.label with
  | .record packet now => [(computePacketId packet, now)]
  | .checkAndRecord packet now =>
    if (e.before.checkAndRecord lim now packet).1 then [] else [(computePacketId packet, now)]
  | .isDuplicate .. | .pruneExpired _ => []

/-- The records of a run, newest first. -/
def records (history : List (Taken PacketDeduplicator Call)) : List (Str × Seconds) :=
  history.reverse.flatMap (recorded lim)

variable {lim} {now : Seconds} {s : PacketDeduplicator} {log : List (Str × Seconds)}
  {history : List (Taken PacketDeduplicator Call)}

theorem checkAndRecord_eq (packet : BitchatPacket) :
    s.checkAndRecord lim now packet = if (s.isDuplicate lim now packet).1
      then (true, (s.isDuplicate lim now packet).2)
      else (false, (s.isDuplicate lim now packet).2.recordId lim now (computePacketId packet)) := rfl

theorem isDuplicate_iff {packet : BitchatPacket} : (s.isDuplicate lim now packet).1 = true ↔
    ∃ t, s.entries.get? (computePacketId packet) = some t ∧ now - t ≤ lim.entryTtlSeconds := by
  unfold isDuplicate isIdDuplicate
  cases found : s.entries.get? (computePacketId packet) with
  | none => simp
  | some t =>
    simp only [expired, Option.some.injEq, exists_eq_left', decide_eq_true_eq]
    split
    · next old => exact iff_of_false Bool.false_ne_true (not_le.mpr old)
    · next young => exact iff_of_true rfl (not_lt.mp young)

theorem Remembers.perform (call : Call) (h : Remembers lim call.now log s) :
    Remembers lim call.now (recorded lim ⟨s, call, call.perform lim s⟩ ++ log)
      (call.perform lim s) := by
  cases call with
  | record packet now => exact h.recordId
  | isDuplicate packet now => exact h.isIdDuplicate
  | pruneExpired now => exact h.pruneExpired
  | checkAndRecord packet now =>
    simp only [recorded, Call.perform, checkAndRecord_eq]
    split
    · exact h.isIdDuplicate
    · exact h.isIdDuplicate.recordId

/-- With a clock that does not run backwards a filter remembers the records of its run. -/
theorem remembers (run : Run (Called lim) {} history s)
    (ordered : history.Pairwise fun d e => d.label.now ≤ e.label.now)
    (past : ∀ e ∈ history, e.label.now ≤ now) : Remembers lim now (records lim history) s := by
  induction run generalizing now with
  | nil => exact .empty
  | @snoc history s call t _ called ih =>
    obtain rfl : t = call.perform lim s := called
    rw [List.pairwise_append] at ordered
    have before := ih ordered.1 fun e member => ordered.2.2 e member _ (List.mem_singleton_self _)
    have after := before.perform
    rw [records, List.reverse_append, List.reverse_singleton, List.singleton_append,
      List.flatMap_cons]
    exact after.wait (past _ (List.mem_append_right _ (List.mem_singleton_self _)))

/-- What a filter does at a time after the calls of a run. -/
structure CacheSpec (lim : DeduplicatorLimits) (history : List (Taken PacketDeduplicator Call))
    (s : PacketDeduplicator) (now : Seconds) : Prop where
  retained : ∀ packet t, Recency.last (computePacketId packet) (records lim history) = some t →
    now - t ≤ lim.entryTtlSeconds →
    (Recency.since (computePacketId packet) (records lim history)).card < lim.maxEntries →
    (s.isDuplicate lim now packet).1 = true
  recent : ∀ packet, (s.isDuplicate lim now packet).1 = true →
    ∃ t, Recency.last (computePacketId packet) (records lim history) = some t ∧
      now - t ≤ lim.entryTtlSeconds
  checked : ∀ packet,
    ((s.checkAndRecord lim now packet).1 = false ↔ (s.isDuplicate lim now packet).1 = false) ∧
    ((s.checkAndRecord lim now packet).1 = false →
      (s.checkAndRecord lim now packet).2.entries.get? (computePacketId packet) = some now)
  pruned : (s.pruneExpired lim now).entries.entries =
    s.entries.entries.filter fun e => now - e.2 ≤ lim.entryTtlSeconds

/-- A filter never outgrows its limit, and answers from the last records of its run. -/
theorem cache_spec (run : Run (Called lim) {} history s)
    (ordered : history.Pairwise fun d e => d.label.now ≤ e.label.now) :
    s.entries.size ≤ lim.maxEntries ∧
      ∀ now, (∀ e ∈ history, e.label.now ≤ now) → CacheSpec lim history s now := by
  constructor
  · cases run with
    | nil => exact Nat.zero_le _
    | @snoc earlier before call _ run called =>
      have last : ∀ e ∈ earlier ++ [⟨before, call, s⟩], e.label.now ≤ call.now := by
        intro e member
        rcases List.mem_append.mp member with member | member
        · exact (List.pairwise_append.mp ordered).2.2 e member _ (List.mem_singleton_self _)
        · exact (List.mem_singleton.mp member ▸ le_rfl)
      exact (remembers (run.snoc called) ordered last).window.size
  · intro now past
    have holds := remembers run ordered past
    refine ⟨?_, ?_, ?_, ?_⟩
    · intro packet t last young few
      rw [isDuplicate_iff]
      rcases holds.window.holds _ (Recency.mem_latest.mpr last) with held | old | many
      · exact ⟨t, InsertionMap.get?_eq_some.mpr held, young⟩
      · rw [expired, decide_eq_true_eq] at old
        exact absurd young (not_le.mpr old)
      · exact absurd few (not_lt.mpr many)
    · intro packet duplicate
      obtain ⟨t, found, young⟩ := isDuplicate_iff.mp duplicate
      exact ⟨t, holds.get? found, young⟩
    · intro packet
      rw [checkAndRecord_eq]
      cases duplicate : (s.isDuplicate lim now packet).1 with
      | true => simp
      | false => simp [recordId]
    · rw [holds.pruned]
      refine List.filter_congr fun e _ => ?_
      rw [expired, ← decide_not, decide_eq_decide, not_lt]

end Bitchat.Mesh.PacketDeduplicator

namespace Bitchat.Mesh.PacketDeduplicator
open Crypto Protocol Modular
attribute [local instance] Modular.primitives

/-- A filter with two places. -/
def pair : DeduplicatorLimits :=
  { DeduplicatorLimits.standard with maxEntries := 2, maxEntries_pos := Nat.two_pos }

/-- The first packet is recorded again before the third one takes the place of the second. -/
def sightings : List Call :=
  [.record (.note 1 7) 0, .checkAndRecord (.note 2 7) 10, .record (.note 1 7) 100,
    .pruneExpired 150, .checkAndRecord (.note 3 7) 200]

def seen : PacketDeduplicator := sightings.foldl (Call.perform pair) {}

def seenHistory : List (Taken PacketDeduplicator Call) :=
  Run.trace (fun call s => Call.perform pair s call) {} sightings

theorem seen_run : Run (Called pair) {} seenHistory seen :=
  Run.of_trace (fun call (s : PacketDeduplicator) => Call.perform pair s call) fun _ _ _ => rfl

/-- The packet that was recorded again is known for a whole lifetime from then, the evicted one is
not, and then the first has expired as well. -/
theorem seen_known : (seen.isDuplicate pair 400 (.note 1 7)).1 = true ∧
    (seen.isDuplicate pair 200 (.note 2 7)).1 = false ∧
    (seen.isDuplicate pair 401 (.note 1 7)).1 = false := by
  have ordered : seenHistory.Pairwise fun d e => d.label.now ≤ e.label.now := by decide +kernel
  have spec := (cache_spec seen_run ordered).2
  have last : Recency.last (computePacketId (.note 1 7)) (records pair seenHistory) = some 100 := by
    decide +kernel
  refine ⟨?_, by decide +kernel, ?_⟩
  · exact (spec 400 (by decide +kernel)).retained _ 100 last (by decide +kernel) (by decide +kernel)
  · refine Bool.eq_false_iff.mpr fun known => ?_
    obtain ⟨t, recorded, young⟩ := (spec 401 (by decide +kernel)).recent _ known
    obtain rfl := Option.some.inj (last.symm.trans recorded)
    exact absurd young (by decide +kernel)

end Bitchat.Mesh.PacketDeduplicator
