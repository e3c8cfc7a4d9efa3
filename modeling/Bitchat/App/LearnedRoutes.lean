import Bitchat.App.AddressTables
import Bitchat.Mesh.Routes

/-! Whether a learned route leads back over its link. The table keeps the address of the link as it
keeps a peer id, stripped and in lower case, but a link is found by its exact address. -/
namespace Bitchat.Mesh.MeshRouter
open Crypto Protocol Str
variable {settings : RouterSettings} {now : Seconds} {s : MeshRouter} {packet : BitchatPacket}

theorem makeRouteRoom_origin {k : Str} {entry : RouteEntry}
    (found : (s.makeRouteRoom settings now).routes.get? k = some entry) : s.routes.get? k = some entry := by
  have pruned : ∀ maxAge, (s.pruneRoutes maxAge now).routes.get? k = some entry →
      s.routes.get? k = some entry := by
    intro maxAge found
    simp only [pruneRoutes, InsertionMap.get?_filter, Option.filter_eq_some_iff] at found
    exact found.1
  unfold makeRouteRoom at found
  split at found
  · simp only at found
    split at found
    · split at found
      · exact pruned _ found
      · simp only [InsertionMap.get?_erase] at found
        split at found
        · cases found
        · exact pruned _ found
    · exact pruned _ found
  · exact found

variable [CaseMapping] [Primitives] {ingressSource : Option Str}

/-- A packet that is not dropped is learned from, with the routes that the router had. -/
theorem evaluateIncoming_learns
    (accepted : (s.evaluateIncoming settings now packet ingressSource).1.dropReason = none) :
    ∃ t : MeshRouter, t.routes = s.routes ∧
      (s.evaluateIncoming settings now packet ingressSource).2.routes =
        (t.learnRoute settings now packet ingressSource).routes := by
  obtain ⟨limiter, rated⟩ : ∃ rateLimiter,
      (s.isRateLimited settings now (hex packet.senderId)).2 = { s with rateLimiter } :=
    isRateLimited_frame _
  unfold evaluateIncoming at accepted ⊢
  simp only [rated] at accepted ⊢
  split at accepted
  · cases accepted
  · next foreign =>
    split at accepted
    · cases accepted
    · next unlimited =>
      split at accepted
      · cases accepted
      · next alive =>
        split at accepted
        · cases accepted
        · next new =>
          simp only [if_neg foreign, if_neg unlimited, if_neg alive, if_neg new]
          exact ⟨{ s with
            rateLimiter := limiter
            deduplicator := (s.deduplicator.checkAndRecord settings.deduplicator now packet).2 }, rfl, rfl⟩

/-- The route to the sender of a packet that came over a link. -/
def learnedRoute (now : Seconds) (packet : BitchatPacket) (address : Str) : RouteEntry :=
  ⟨normalizeRouteKey (.str address), hopsSoFar packet.ttl, now⟩

/-- The route that the table has to the sender of a packet. -/
def routeToSender (packet : BitchatPacket) (s : MeshRouter) : Option RouteEntry :=
  s.routes.get? (normalizeRouteKey (.str (hex packet.senderId)))

/-- No live route to the sender has fewer hops than the packet came. -/
def NoneNearer (settings : RouterSettings) (now : Seconds) (packet : BitchatPacket) (s : MeshRouter) :
    Prop :=
  ∀ existing, s.routeToSender packet = some existing → existing.Live settings now →
    hopsSoFar packet.ttl ≤ existing.hopCount

theorem evaluateIncoming_route {address : Str}
    (accepted : (s.evaluateIncoming settings now packet (some address)).1.dropReason = none)
    (named : address ≠ []) (nearest : s.NoneNearer settings now packet) :
    (s.evaluateIncoming settings now packet (some address)).2.routeToSender packet =
      some (learnedRoute now packet address) := by
  obtain ⟨t, same, learned⟩ := evaluateIncoming_learns accepted
  simp only [routeToSender, learned, learnRoute, if_neg named]
  apply (addRoute_entered settings now t _ _ _).2.2.1
  intro existing found
  apply nearest existing
  rw [routeToSender, ← same]
  exact makeRouteRoom_origin found

/-- Nothing is learned from a packet without the address of its link. -/
theorem evaluateIncoming_unnamed
    (accepted : (s.evaluateIncoming settings now packet (some [])).1.dropReason = none) :
    (s.evaluateIncoming settings now packet (some [])).2.routes = s.routes := by
  obtain ⟨t, same, learned⟩ := evaluateIncoming_learns accepted
  rw [learned, ← same]
  rfl

omit [Primitives] in
/-- A live route is looked up as it is. -/
theorem getNextHop_live {destination : PeerName} {entry : RouteEntry}
    (found : s.routes.get? (normalizeRouteKey destination) = some entry) (live : entry.Live settings now) :
    (s.getNextHop settings destination now).1 = some entry.nextHop := by
  unfold getNextHop
  simp only [found, if_neg (not_lt.mpr live)]

end Bitchat.Mesh.MeshRouter

namespace Bitchat.App.MeshCoordinator
open Crypto Protocol Mesh Str

section Links
variable {τ : Type} [BaseTransport τ] [CaseMapping] {c : MeshCoordinator τ} {target address : Str}

/-- The peer ids that the address tables name. -/
def knownIds (c : MeshCoordinator τ) : List Str := c.peerAddresses.keys ++ c.addressToPeerId.values

/-- The connected addresses that the tables have for a peer, in the order in which they are tried. -/
def listedLinks (target : Str) (c : MeshCoordinator τ) : List Str :=
  let connected := BaseTransport.connectedPeers c.transport
  ((c.peerAddresses.get? target).filter fun address => address ≠ [] ∧ address ∈ connected).toList ++
    (c.addressToPeerId.entries.filter fun e =>
      CaseMapping.lower e.2 = CaseMapping.lower target ∧ e.1 ∈ connected).map Prod.fst

theorem resolveConnectedPeerAddress_eq :
    c.resolveConnectedPeerAddress target = (c.listedLinks target).head?.or
      (if target ∈ BaseTransport.connectedPeers c.transport then some target else none) := by
  unfold resolveConnectedPeerAddress listedLinks
  simp only [List.head?_append, List.head?_map, List.head?_filter, Option.head?_toList, Option.or_assoc]

/-- The tables have no link for what is no known id in any letter case. -/
theorem listedLinks_unknown
    (unknown : ∀ id ∈ c.knownIds, CaseMapping.lower id ≠ CaseMapping.lower target) :
    c.listedLinks target = [] := by
  have unlisted : c.peerAddresses.get? target = none := by
    cases found : c.peerAddresses.get? target with
    | none => rfl
    | some reached =>
      have key := InsertionMap.mem_keys.mpr (InsertionMap.contains_iff.mpr ⟨reached, found⟩)
      exact absurd rfl (unknown target (List.mem_append_left _ key))
  have none : c.addressToPeerId.entries.filter (fun e => decide
      (CaseMapping.lower e.2 = CaseMapping.lower target ∧
        e.1 ∈ BaseTransport.connectedPeers c.transport)) = [] := by
    apply List.filter_eq_nil_iff.mpr
    intro e member
    have value : e.2 ∈ c.knownIds := List.mem_append_right _ (List.mem_map_of_mem member)
    simp [unknown e.2 value]
  simp only [listedLinks, unlisted, none]
  rfl

/-- The next hop to the sender of a packet resolves to the address. -/
def LeadsOver (settings : RouterSettings) (now : Seconds) (packet : BitchatPacket) (address : Str)
    (c : MeshCoordinator τ) : Prop :=
  ∃ hop, (c.router.getNextHop settings (.str (hex packet.senderId)) now).1 = some hop ∧
    c.resolveConnectedPeerAddress hop = some address

/-- The address is the first link that the tables have for its normal form, or in the absence of
any link it is its own normal form. -/
def Recovers (address : Str) (c : MeshCoordinator τ) : Prop :=
  match c.listedLinks (normalizeRouteKey (.str address)) with
  | [] => normalizeRouteKey (.str address) = address
  | first :: _ => first = address

theorem resolve_normal (connected : address ∈ BaseTransport.connectedPeers c.transport) :
    c.resolveConnectedPeerAddress (normalizeRouteKey (.str address)) = some address ↔ c.Recovers address := by
  rw [resolveConnectedPeerAddress_eq]
  unfold Recovers
  cases c.listedLinks (normalizeRouteKey (.str address)) with
  | nil =>
    simp only [List.head?_nil, Option.none_or]
    constructor
    · intro resolved
      split at resolved
      · exact Option.some.inj resolved
      · cases resolved
    · intro normal
      rw [normal, if_pos connected]
  | cons first rest => simp

end Links

/-- While the table keeps the route that an accepted packet taught it and the link stays
connected, the route leads back over the link exactly when the address can be recovered from its
normal form. When that is no known id, the address has to be in normal form. -/
theorem learned_route_leads_back {τ : Type} [BaseTransport τ] [CaseMapping] [Primitives]
    (settings : RouterSettings) (now : Seconds) (packet : BitchatPacket) (address : Str)
    (router : MeshRouter)
    (accepted : (router.evaluateIncoming settings now packet (some address)).1.dropReason = none)
    (nearest : router.NoneNearer settings now packet) :
    (address = [] → (router.evaluateIncoming settings now packet (some address)).2.routes = router.routes) ∧
    (address ≠ [] →
      (router.evaluateIncoming settings now packet (some address)).2.routeToSender packet =
        some (MeshRouter.learnedRoute now packet address) ∧
      ∀ (later : Seconds) (c : MeshCoordinator τ),
        c.router.routeToSender packet = some (MeshRouter.learnedRoute now packet address) →
        (MeshRouter.learnedRoute now packet address).Live settings later →
        address ∈ BaseTransport.connectedPeers c.transport →
        (c.LeadsOver settings later packet address ↔ c.Recovers address) ∧
        ((∀ id ∈ c.knownIds, CaseMapping.lower id ≠ CaseMapping.lower (normalizeRouteKey (.str address))) →
          (c.LeadsOver settings later packet address ↔ normalizeRouteKey (.str address) = address))) := by
  refine ⟨?_, fun named => ⟨MeshRouter.evaluateIncoming_route accepted named nearest, ?_⟩⟩
  · rintro rfl
    exact MeshRouter.evaluateIncoming_unnamed accepted
  · intro later c held live connected
    have hop : (c.router.getNextHop settings (.str (hex packet.senderId)) later).1 =
        some (normalizeRouteKey (.str address)) := MeshRouter.getNextHop_live held live
    have leads : c.LeadsOver settings later packet address ↔ c.Recovers address := by
      rw [← resolve_normal connected]
      simp only [LeadsOver, hop, Option.some.injEq, exists_eq_left']
    refine ⟨leads, fun unknown => ?_⟩
    rw [leads, Recovers, listedLinks_unknown unknown]

section Spellings
open Modular
attribute [local instance] Modular.primitives asciiCase

/-- A transport that is given by its connected addresses. -/
@[reducible] def plainLinks : BaseTransport (List Str) where
  connectedPeers links := links
  discoveredPeers _ := []
  isInboundConnection _ _ := false
  broadcastLinks exclude links := links.filter fun address => some address ≠ exclude

attribute [local instance] plainLinks

def upperCaseLink : Str := "AA:BB:CC:DD:EE:FF".toList
def lowerCaseLink : Str := "192.168.1.20:50001".toList

/-- The coordinator with one link after a packet over it. -/
def taught (link : Str) : MeshCoordinator (List Str) where
  transport := [link]
  router := (MeshRouter.evaluateIncoming courierSettings.router 0 (.note 1 3) (some link) {}).2

/-- The packets for a sender behind an address and port go back there. -/
theorem lower_case_link_found :
    (taught lowerCaseLink).LeadsOver courierSettings.router 9 (.note 1 3) lowerCaseLink := by
  have back := (learned_route_leads_back (τ := List Str) courierSettings.router 0 (.note 1 3) lowerCaseLink {}
    (by decide +kernel) (by intro _ found; cases found)).2 (by decide)
  refine ((back.2 9 (taught lowerCaseLink) (by decide +kernel) (by decide +kernel) (by decide)).2 ?_).mpr
    (by decide +kernel)
  intro id member
  cases member

/-- The next hop over a link with an upper-case address is no link. -/
theorem upper_case_link_lost : ¬ ∀ (settings : RouterSettings) (now later : Seconds)
    (packet : BitchatPacket) (address : Str) (c d : MeshCoordinator (List Str)),
    (c.router.evaluateIncoming settings now packet (some address)).1.dropReason = none →
    address ∈ BaseTransport.connectedPeers c.transport → address ∉ c.knownIds →
    c.router.NoneNearer settings now packet →
    d.router.routeToSender packet = some (MeshRouter.learnedRoute now packet address) →
    (MeshRouter.learnedRoute now packet address).Live settings later →
    address ∈ BaseTransport.connectedPeers d.transport → address ∉ d.knownIds →
    d.LeadsOver settings later packet address := by
  intro leads
  obtain ⟨hop, next, resolved⟩ := leads courierSettings.router 0 9 (.note 1 3) upperCaseLink
    { transport := [upperCaseLink] } (taught upperCaseLink) (by decide +kernel) (by decide) (by decide)
    (by intro _ found; cases found) (by decide +kernel) (by decide +kernel) (by decide) (by decide)
  have lowered : (MeshRouter.getNextHop courierSettings.router (.str (hex (BitchatPacket.note 1 3).senderId)) 9
      (taught upperCaseLink).router).1 = some "aa:bb:cc:dd:ee:ff".toList := by decide +kernel
  obtain rfl := Option.some.inj (lowered.symm.trans next)
  exact absurd resolved (by decide +kernel)

end Spellings
end Bitchat.App.MeshCoordinator
