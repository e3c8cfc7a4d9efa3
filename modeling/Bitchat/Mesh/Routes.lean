import Bitchat.Data.Run
import Bitchat.Mesh.RouterSteps

/-! The routing table under its updates. A full table makes room before the destination is looked
up, so that renewing a known route can cost another destination its own. -/
namespace Bitchat.Mesh
open Str

/-- The route has not expired. -/
def RouteEntry.Live (settings : RouterSettings) (now : Seconds) (entry : RouteEntry) : Prop :=
  now - entry.updatedAt ≤ settings.routeTtlSeconds

instance {settings : RouterSettings} {now : Seconds} {entry : RouteEntry} :
    Decidable (entry.Live settings now) := inferInstanceAs (Decidable (_ ≤ _))

namespace MeshRouter

def removeRoute [CaseMapping] (destination : PeerName) (s : MeshRouter) : MeshRouter :=
  { s with routes := s.routes.erase (normalizeRouteKey destination) }

/-- The calls that change the routing table. -/
inductive RouteCall where
  | addRoute (destination nextHop : PeerName) (hopCount : Int) (now : Seconds)
  | getNextHop (destination : PeerName) (now : Seconds)
  | removeRoute (destination : PeerName)
  | pruneRoutes (maxAge now : Seconds)

def performRoute [CaseMapping] (settings : RouterSettings) (s : MeshRouter) : RouteCall → MeshRouter
  | .addRoute destination nextHop hopCount now => s.addRoute settings destination nextHop hopCount now
  | .getNextHop destination now => (s.getNextHop settings destination now).2
  | .removeRoute destination => s.removeRoute destination
  | .pruneRoutes maxAge now => s.pruneRoutes maxAge now

def RouteStep [CaseMapping] (settings : RouterSettings) (s : MeshRouter) (call : RouteCall)
    (t : MeshRouter) : Prop := t = s.performRoute settings call

/-- The table is full of live routes. -/
def Crowded (settings : RouterSettings) (now : Seconds) (s : MeshRouter) : Prop :=
  settings.maxRoutes ≤ s.routes.size ∧ ∀ e ∈ s.routes.entries, e.2.Live settings now

/-- The first of the routes that were updated longest ago. -/
def oldestRoute (s : MeshRouter) : Option (Str × RouteEntry) :=
  s.routes.entries.argmin fun e => e.2.updatedAt

/-- The live routes stay as they are, but for excepted destinations. -/
def KeepsRoutes (settings : RouterSettings) (now : Seconds) (excepted : List Str) (s t : MeshRouter) :
    Prop :=
  ∀ other entry, other ∉ excepted → s.routes.get? other = some entry → entry.Live settings now →
    t.routes.get? other = some entry

/-- What an update of the route to `destKey` may do to the table. -/
structure UpdatesRoute (settings : RouterSettings) (destKey : Str) (hopCount : Int) (now : Seconds)
    (s t : MeshRouter) : Prop where
  bounded : t.routes.size ≤ settings.maxRoutes
  origin : ∀ other entry, other ≠ destKey → t.routes.get? other = some entry →
    s.routes.get? other = some entry
  renewed : ∀ existing, s.routes.get? destKey = some existing →
    KeepsRoutes settings now [destKey] s t ∧
    (existing.Live settings now → existing.hopCount < hopCount → t.routes.get? destKey = some existing)
  added : s.routes.get? destKey = none → KeepsRoutes settings now [destKey] s t ∨
    Crowded settings now s ∧ ∃ lost entry, s.routes.get? lost = some entry ∧
      (∀ e ∈ s.routes.entries, entry.updatedAt ≤ e.2.updatedAt) ∧
      KeepsRoutes settings now [destKey, lost] s t

/-- A known destination finds room in the table, or its own route is the next to go and is no
better than the new one. -/
def SparesOthers (settings : RouterSettings) (destKey : Str) (hopCount : Int) (now : Seconds)
    (s : MeshRouter) : Prop :=
  ∀ existing, s.routes.get? destKey = some existing → Crowded settings now s →
    s.oldestRoute = some (destKey, existing) ∧ hopCount ≤ existing.hopCount

section Room
variable {settings : RouterSettings} {now : Seconds} {s : MeshRouter}

/-- Without a crowd there is room once the expired routes of a full table are gone. -/
theorem makeRouteRoom_spacious (bounded : s.routes.size ≤ settings.maxRoutes)
    (spacious : ¬ Crowded settings now s) :
    (s.makeRouteRoom settings now).routes.size < settings.maxRoutes ∧
    (∀ k entry, (s.makeRouteRoom settings now).routes.get? k = some entry → s.routes.get? k = some entry) ∧
    KeepsRoutes settings now [] s (s.makeRouteRoom settings now) := by
  unfold makeRouteRoom
  by_cases full : settings.maxRoutes ≤ s.routes.size
  · have dropped : ∃ e ∈ s.routes.entries, ¬ e.2.Live settings now := by
      by_contra none
      refine spacious ⟨full, fun e member => ?_⟩
      by_contra expired
      exact none ⟨e, member, expired⟩
    obtain ⟨e, member, expired⟩ := dropped
    have fewer : (s.pruneRoutes settings.routeTtlSeconds now).routes.size < s.routes.size := by
      apply List.length_filter_lt_length_iff_exists.mpr
      exact ⟨e, member, by simpa [RouteEntry.Live] using expired⟩
    have below := fewer.trans_le bounded
    simp only [if_pos full, if_neg (not_le.mpr below)]
    refine ⟨below, fun k entry found => ?_, fun k entry _ found live => ?_⟩
    · simp only [pruneRoutes, InsertionMap.get?_filter, Option.filter_eq_some_iff] at found
      exact found.1
    · simp only [pruneRoutes, InsertionMap.get?_filter, Option.filter_eq_some_iff]
      exact ⟨found, decide_eq_true live⟩
  · rw [if_neg full]
    exact ⟨not_le.mp full, fun _ _ found => found, fun _ _ _ found _ => found⟩

/-- A crowded table loses the route that was updated longest ago. -/
theorem makeRouteRoom_crowded (crowded : Crowded settings now s) :
    ∃ oldest, s.oldestRoute = some oldest ∧
      (s.makeRouteRoom settings now).routes = s.routes.erase oldest.1 := by
  obtain ⟨full, live⟩ := crowded
  have pruned : s.pruneRoutes settings.routeTtlSeconds now = s := by
    have kept : s.routes.filter (fun e => decide (now - e.2.updatedAt ≤ settings.routeTtlSeconds)) =
        s.routes := by
      apply InsertionMap.ext
      exact List.filter_eq_self.mpr fun e member => decide_eq_true (live e member)
    simp only [pruneRoutes, kept]
  cases found : s.oldestRoute with
  | none =>
    have empty := List.argmin_eq_none.mp found
    rw [InsertionMap.size, empty, List.length_nil] at full
    exact absurd settings.maxRoutes_pos (not_lt.mpr full)
  | some oldest =>
    refine ⟨oldest, rfl, ?_⟩
    unfold oldestRoute at found
    simp only [makeRouteRoom, pruned, if_pos full, found]

theorem oldestRoute_spec {oldest : Str × RouteEntry} (found : s.oldestRoute = some oldest) :
    s.routes.get? oldest.1 = some oldest.2 ∧
      ∀ e ∈ s.routes.entries, oldest.2.updatedAt ≤ e.2.updatedAt := by
  refine ⟨InsertionMap.get?_eq_some_of_mem (List.argmin_mem found), fun e member => ?_⟩
  exact List.le_of_mem_argmin (f := fun e : Str × RouteEntry => e.2.updatedAt) member found

end Room

section Update
variable [CaseMapping] {settings : RouterSettings} {now : Seconds} {hopCount : Int} {s : MeshRouter}
  {destination nextHop : PeerName}

/-- With room in the table the route is entered, unless a better one is live; no other changes. -/
theorem addRoute_entered (settings : RouterSettings) (now : Seconds) (s : MeshRouter)
    (destination nextHop : PeerName) (hopCount : Int) :
    (∀ other, other ≠ normalizeRouteKey destination →
      (s.addRoute settings destination nextHop hopCount now).routes.get? other =
        (s.makeRouteRoom settings now).routes.get? other) ∧
    (∀ existing, (s.makeRouteRoom settings now).routes.get? (normalizeRouteKey destination) = some existing →
      existing.Live settings now → existing.hopCount < hopCount →
      s.addRoute settings destination nextHop hopCount now = s.makeRouteRoom settings now) ∧
    ((∀ existing, (s.makeRouteRoom settings now).routes.get? (normalizeRouteKey destination) = some existing →
        existing.Live settings now → hopCount ≤ existing.hopCount) →
      (s.addRoute settings destination nextHop hopCount now).routes.get? (normalizeRouteKey destination) =
        some ⟨normalizeRouteKey nextHop, hopCount, now⟩) ∧
    (s.addRoute settings destination nextHop hopCount now).routes.size ≤
      (s.makeRouteRoom settings now).routes.size + 1 := by
  unfold addRoute
  simp only
  cases found : (s.makeRouteRoom settings now).routes.get? (normalizeRouteKey destination) with
  | none =>
    refine ⟨fun other different => ?_, by simp, fun _ => ?_, ?_⟩
    · simp [different]
    · simp
    · simp [InsertionMap.size_set_new found]
  | some existing =>
    have present := InsertionMap.contains_iff.mpr ⟨existing, found⟩
    simp only [Option.some.injEq, forall_eq']
    by_cases better : now - existing.updatedAt ≤ settings.routeTtlSeconds ∧ existing.hopCount < hopCount
    · rw [if_pos better]
      refine ⟨fun _ _ => rfl, fun _ _ => rfl, fun worse => ?_, Nat.le_succ _⟩
      exact absurd better.2 (not_lt.mpr (worse better.1))
    · rw [if_neg better]
      refine ⟨fun other different => ?_, fun live fewer => absurd ⟨live, fewer⟩ better, fun _ => ?_, ?_⟩
      · simp [different]
      · simp
      · simp [InsertionMap.size_set present]

/-- An update into a table with room changes its own destination only. -/
theorem addRoute_spacious (bounded : s.routes.size ≤ settings.maxRoutes)
    (spacious : ¬ Crowded settings now s) :
    UpdatesRoute settings (normalizeRouteKey destination) hopCount now s
      (s.addRoute settings destination nextHop hopCount now) := by
  obtain ⟨below, origin, kept⟩ := makeRouteRoom_spacious bounded spacious
  obtain ⟨others, better, _, size⟩ := addRoute_entered settings now s destination nextHop hopCount
  have keeps : KeepsRoutes settings now [normalizeRouteKey destination] s
      (s.addRoute settings destination nextHop hopCount now) := by
    intro other entry away found live
    rw [others other (by simpa using away)]
    exact kept other entry List.not_mem_nil found live
  constructor
  · exact size.trans below
  · intro other entry away found
    rw [others other away] at found
    exact origin other entry found
  · intro existing found
    refine ⟨keeps, fun live fewer => ?_⟩
    have there := kept _ existing List.not_mem_nil found live
    rw [better existing there live fewer]
    exact there
  · exact fun _ => Or.inl keeps

/-- In a crowded table an update replaces the oldest route by its own. -/
theorem addRoute_crowded (crowded : Crowded settings now s)
    (destination nextHop : PeerName) (hopCount : Int) :
    ∃ oldest, s.oldestRoute = some oldest ∧
      (s.routes.size ≤ settings.maxRoutes →
        (s.addRoute settings destination nextHop hopCount now).routes.size ≤ settings.maxRoutes) ∧
      (∀ other, other ≠ normalizeRouteKey destination →
        (s.addRoute settings destination nextHop hopCount now).routes.get? other =
          if other = oldest.1 then none else s.routes.get? other) ∧
      ((s.routes.get? (normalizeRouteKey destination) = none ∨ oldest.1 = normalizeRouteKey destination) →
        (s.addRoute settings destination nextHop hopCount now).routes.get? (normalizeRouteKey destination) =
          some ⟨normalizeRouteKey nextHop, hopCount, now⟩) := by
  obtain ⟨oldest, first, erased⟩ := makeRouteRoom_crowded crowded
  obtain ⟨others, _, entered, size⟩ := addRoute_entered settings now s destination nextHop hopCount
  have present : s.routes.contains oldest.1 :=
    InsertionMap.contains_iff.mpr ⟨_, (oldestRoute_spec first).1⟩
  have fewer := InsertionMap.size_erase present
  rw [erased] at size
  refine ⟨oldest, first, fun bounded => by omega, fun other away => ?_, fun free => ?_⟩
  · rw [others other away, erased, InsertionMap.get?_erase]
  · apply entered
    intro existing found
    rw [erased, InsertionMap.get?_erase] at found
    split at found
    · cases found
    · next away =>
      rcases free with unknown | here
      · rw [unknown] at found
        cases found
      · exact absurd here.symm away

/-- An update of a bounded table is one of its own destination exactly when it spares others. -/
theorem addRoute_updates_iff (bounded : s.routes.size ≤ settings.maxRoutes) :
    UpdatesRoute settings (normalizeRouteKey destination) hopCount now s
      (s.addRoute settings destination nextHop hopCount now) ↔
    SparesOthers settings (normalizeRouteKey destination) hopCount now s := by
  by_cases crowded : Crowded settings now s
  · obtain ⟨oldest, first, size, others, entered⟩ := addRoute_crowded crowded destination nextHop hopCount
    obtain ⟨listed, longest⟩ := oldestRoute_spec first
    have live := crowded.2 _ (InsertionMap.get?_eq_some.mp listed)
    constructor
    · intro updates existing found _
      obtain ⟨keeps, better⟩ := updates.renewed existing found
      have own : oldest.1 = normalizeRouteKey destination := by
        by_contra away
        have kept := keeps oldest.1 oldest.2 (by simpa using away) listed live
        rw [others oldest.1 away, if_pos rfl] at kept
        cases kept
      have same : existing = oldest.2 := by
        rw [← own, listed] at found
        exact (Option.some.inj found).symm
      refine ⟨by rw [first, ← own, same], not_lt.mp fun fewer => ?_⟩
      have kept := better (same ▸ live) fewer
      rw [entered (Or.inr own)] at kept
      exact absurd (congrArg RouteEntry.hopCount (Option.some.inj kept)) fewer.ne'
    · intro spares
      have origin : ∀ other entry, other ≠ normalizeRouteKey destination →
          (s.addRoute settings destination nextHop hopCount now).routes.get? other = some entry →
          s.routes.get? other = some entry := by
        intro other entry away found
        rw [others other away] at found
        split at found
        · cases found
        · exact found
      refine ⟨size bounded, origin, fun existing found => ?_, fun _ => Or.inr ?_⟩
      · obtain ⟨own, worse⟩ := spares existing found crowded
        obtain rfl : (normalizeRouteKey destination, existing) = oldest :=
          Option.some.inj (own.symm.trans first)
        refine ⟨fun other entry away known _ => ?_, fun _ fewer => absurd worse (not_le.mpr fewer)⟩
        have away' : other ≠ normalizeRouteKey destination := by simpa using away
        rw [others other away', if_neg away', known]
      · refine ⟨crowded, oldest.1, oldest.2, listed, longest, fun other entry away known _ => ?_⟩
        simp only [List.mem_cons, List.not_mem_nil, or_false, not_or] at away
        rw [others other away.1, if_neg away.2, known]
  · exact iff_of_true (addRoute_spacious bounded crowded) fun _ _ full => absurd full crowded

/-- The table never outgrows its capacity. -/
theorem addRoute_bounded (bounded : s.routes.size ≤ settings.maxRoutes) :
    (s.addRoute settings destination nextHop hopCount now).routes.size ≤ settings.maxRoutes := by
  by_cases crowded : Crowded settings now s
  · obtain ⟨_, _, size, _, _⟩ := addRoute_crowded crowded destination nextHop hopCount
    exact size bounded
  · exact (addRoute_spacious bounded crowded).bounded

theorem performRoute_bounded (bounded : s.routes.size ≤ settings.maxRoutes)
    (call : RouteCall) : (s.performRoute settings call).routes.size ≤ settings.maxRoutes := by
  cases call with
  | addRoute destination nextHop hopCount now => exact addRoute_bounded bounded
  | getNextHop destination now =>
    simp only [performRoute, getNextHop]
    split
    · exact bounded
    · split
      · exact (InsertionMap.size_erase_le _ _).trans bounded
      · exact bounded
  | removeRoute destination => exact (InsertionMap.size_erase_le _ _).trans bounded
  | pruneRoutes maxAge now => exact (List.length_filter_le _ _).trans bounded

/-- In every table that calls can lead to, an update keeps to its own destination, but for the
oldest route of a crowded table when the destination is new, exactly when it spares the others. -/
theorem route_update_frame {start : MeshRouter} {history : List (Taken MeshRouter RouteCall)}
    (run : Run (RouteStep settings) start history s) (fresh : start.routes = .empty) :
    s.routes.size ≤ settings.maxRoutes ∧
    ∀ destination nextHop hopCount now,
      UpdatesRoute settings (normalizeRouteKey destination) hopCount now s
        (s.addRoute settings destination nextHop hopCount now) ↔
      SparesOthers settings (normalizeRouteKey destination) hopCount now s := by
  have bounded : s.routes.size ≤ settings.maxRoutes := by
    apply run.invariant (P := fun s => s.routes.size ≤ settings.maxRoutes)
    · rw [fresh]
      exact Nat.zero_le _
    · rintro s call t bounded rfl
      exact performRoute_bounded bounded call
  exact ⟨bounded, fun _ _ _ _ => addRoute_updates_iff bounded⟩

end Update

section Crowd
attribute [local instance] asciiCase

/-- A table for two routes. -/
def pairSettings : RouterSettings := { localPeerId := [], maxRoutes := 2, maxRoutes_pos := Nat.two_pos }

def named (c : Char) : PeerName := .str [c]

/-- Two routes, one for each destination. -/
def pairCalls : List RouteCall :=
  [.addRoute (named 'a') (named 'x') 1 0, .addRoute (named 'b') (named 'y') 1 1]

def pairTable : MeshRouter := pairCalls.foldl (fun s call => s.performRoute pairSettings call) {}

theorem pairTable_run : Run (RouteStep pairSettings) {}
    (Run.trace (fun call s => s.performRoute pairSettings call) {} pairCalls) pairTable := by
  apply Run.of_trace (fun call (s : MeshRouter) => s.performRoute pairSettings call)
  exact fun _ _ _ => rfl

/-- Renewing the younger route removes the older one. -/
theorem renewal_evicts : ¬ ∀ (settings : RouterSettings) (start s : MeshRouter)
    (history : List (Taken MeshRouter RouteCall)) (destination nextHop : PeerName) (hopCount : Int)
    (now : Seconds), Run (RouteStep settings) start history s → start.routes = .empty →
    UpdatesRoute settings (normalizeRouteKey destination) hopCount now s
      (s.addRoute settings destination nextHop hopCount now) := by
  intro confined
  have updates := confined pairSettings {} pairTable _ (named 'b') (named 'y') 1 2 pairTable_run rfl
  obtain ⟨keeps, _⟩ := updates.renewed ⟨['y'], 1, 1⟩ (by decide +kernel)
  have kept := keeps ['a'] ⟨['x'], 1, 0⟩ (by decide) (by decide +kernel) (by decide +kernel)
  exact absurd kept (by decide +kernel)

/-- The older route of a full table may be renewed. -/
theorem oldest_renewed : UpdatesRoute pairSettings ['a'] 1 2 pairTable
    (pairTable.addRoute pairSettings (named 'a') (named 'x') 1 2) := by
  refine ((route_update_frame pairTable_run rfl).2 (named 'a') (named 'x') 1 2).mpr ?_
  intro existing found _
  have entry : pairTable.routes.get? ['a'] = some ⟨['x'], 1, 0⟩ := by decide +kernel
  obtain rfl : (⟨['x'], 1, 0⟩ : RouteEntry) = existing := Option.some.inj (entry.symm.trans found)
  exact ⟨by decide +kernel, by decide⟩

end Crowd
end MeshRouter
end Bitchat.Mesh
