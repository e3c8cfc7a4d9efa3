import Bitchat.Data.Run
import Bitchat.Lan.Discovery

/-! The registry of discovered peers in every run. A record sits under its own address, a peer has
one record at most, and the callback is told exactly of the changes that a beacon makes. -/
namespace Bitchat.Lan
open Str

/-- The record is that of a peer id, in any letter case. -/
def RegisteredPeer.Carries [CaseMapping] (peerId : Str) (peer : RegisteredPeer) : Prop :=
  CaseMapping.lower peer.peerId = CaseMapping.lower peerId

namespace LANDiscovery

/-- The registry as a map from peer ids. -/
def directory (s : LANDiscovery) (peerId : Str) : Option (Str × Str × Str) :=
  (s.discoveredPeers.entries.find? fun e => e.2.peerId = peerId).map fun e =>
    (e.1, e.2.nickname, e.2.ssid)

section Registries
variable [CaseMapping]

/-- Each record is under its address, and no peer has two. -/
structure Registry (s : LANDiscovery) : Prop where
  keyed : ∀ key peer, s.discoveredPeers.get? key = some peer →
    peer.address = key ∧ key = endpoint peer.ip peer.port
  unique : ∀ key key' peer peer', s.discoveredPeers.get? key = some peer →
    s.discoveredPeers.get? key' = some peer' → peer.Carries peer'.peerId → key = key'

/-- A record of the registry is of another node: its id is in lower case and is not one of this
node's, and its address is not on the loopback interface. -/
structure Foreign (s : LANDiscovery) (peer : RegisteredPeer) : Prop where
  lowered : CaseMapping.lower peer.peerId = peer.peerId
  named : peer.peerId ≠ []
  current : peer.peerId ≠ CaseMapping.lower s.localPeerId
  previous : peer.peerId ∉ s.previousPeerIds
  remote : isLoopbackSender peer.ip = false

structure Sound (s : LANDiscovery) : Prop extends Registry s where
  foreign : ∀ key peer, s.discoveredPeers.get? key = some peer → s.Foreign peer

/-- This node has or had the id, as far as it keeps its former ids. -/
def Remembers (s : LANDiscovery) (peerId : Str) : Prop :=
  CaseMapping.lower peerId = [] ∨ CaseMapping.lower peerId = CaseMapping.lower s.localPeerId ∨
    CaseMapping.lower peerId ∈ s.previousPeerIds

variable {s t : LANDiscovery} {cfg : DiscoverySettings} {now : Seconds} {packet : DiscoveryPacket}
  {senderIp : Str} {known peer : RegisteredPeer} {key nickname ssid : Str}

/-- No record carries a remembered id. -/
theorem Sound.strange (sound : s.Sound) {peerId : Str} (own : s.Remembers peerId)
    (found : s.discoveredPeers.get? key = some peer) : ¬ peer.Carries peerId := by
  obtain ⟨lowered, named, current, previous, -⟩ := sound.foreign key peer found
  intro same
  rw [RegisteredPeer.Carries, lowered] at same
  rcases own with empty | here | before
  · exact named (same.trans empty)
  · exact current (same.trans here)
  · exact previous (same ▸ before)

/-- A record stays foreign while this node keeps its ids. -/
theorem Foreign.keep (foreign : s.Foreign peer)
    (current : CaseMapping.lower t.localPeerId = CaseMapping.lower s.localPeerId)
    (previous : t.previousPeerIds = s.previousPeerIds) : t.Foreign peer where
  lowered := foreign.lowered
  named := foreign.named
  current := current ▸ foreign.current
  previous := previous ▸ foreign.previous
  remote := foreign.remote

/-- Fewer records are sound while this node keeps its ids. -/
theorem Sound.shrink (sound : s.Sound)
    (current : CaseMapping.lower t.localPeerId = CaseMapping.lower s.localPeerId)
    (previous : t.previousPeerIds = s.previousPeerIds)
    (origin : ∀ key peer, t.discoveredPeers.get? key = some peer →
      s.discoveredPeers.get? key = some peer) : t.Sound where
  keyed key peer found := sound.keyed key peer (origin key peer found)
  unique key key' peer peer' found found' :=
    sound.unique key key' peer peer' (origin key peer found) (origin key' peer' found')
  foreign key peer found := (sound.foreign key peer (origin key peer found)).keep current previous

theorem sound_of_empty (empty : s.discoveredPeers = .empty) : s.Sound := by
  refine ⟨⟨?_, ?_⟩, ?_⟩ <;> simp [empty]

theorem Registry.directory_eq_some (registry : s.Registry) {peerId : Str} :
    s.directory peerId = some (key, nickname, ssid) ↔ ∃ peer, s.discoveredPeers.get? key = some peer ∧
      peer.peerId = peerId ∧ peer.nickname = nickname ∧ peer.ssid = ssid := by
  unfold directory
  rw [Option.map_eq_some_iff]
  constructor
  · rintro ⟨e, found, same⟩
    obtain ⟨rfl, rfl, rfl⟩ := Prod.mk.injEq .. ▸ same |>.imp id (Prod.mk.inj ·)
    have id : e.2.peerId = peerId := by simpa using List.find?_some found
    exact ⟨e.2, InsertionMap.get?_eq_some_of_mem (List.mem_of_find?_eq_some found), id, rfl, rfl⟩
  · rintro ⟨peer, entry, rfl, rfl, rfl⟩
    have member := InsertionMap.get?_eq_some.mp entry
    cases found : s.discoveredPeers.entries.find? fun e => decide (e.2.peerId = peer.peerId) with
    | none => exact absurd (List.find?_eq_none.mp found _ member) (by simp)
    | some e =>
      have id : e.2.peerId = peer.peerId := by simpa using List.find?_some found
      have listed := InsertionMap.get?_eq_some_of_mem (List.mem_of_find?_eq_some found)
      obtain rfl : e.1 = key := registry.unique _ _ _ _ listed entry (congrArg CaseMapping.lower id)
      obtain rfl : e.2 = peer := Option.some.inj (listed.symm.trans entry)
      exact ⟨e, rfl, rfl⟩

/-- The new record of a peer is its only one, and no other peer's is elsewhere than before. -/
theorem announce_sound (sound : s.Sound) (foreign : s.Foreign peer)
    (placed : peer.address = endpoint peer.ip peer.port)
    (alone : ∀ key known, s.discoveredPeers.get? key = some known → key ≠ peer.address →
      ¬ known.Carries peer.peerId) : (s.announce cfg peer).2.Sound := by
  have entry : ∀ key found, (s.announce cfg peer).2.discoveredPeers.get? key = some found →
      key = peer.address ∧ found = peer ∨ key ≠ peer.address ∧ s.discoveredPeers.get? key = some found := by
    intro key found entry
    simp only [announce, InsertionMap.get?_set] at entry
    split at entry
    · next here => exact Or.inl ⟨here, (Option.some.inj entry).symm⟩
    · next away => exact Or.inr ⟨away, entry⟩
  constructor
  · constructor
    · intro key found at'
      rcases entry key found at' with ⟨rfl, rfl⟩ | ⟨-, before⟩
      · exact ⟨rfl, placed⟩
      · exact sound.keyed key found before
    · intro key key' found found' at' at'' same
      rcases entry key found at' with ⟨rfl, rfl⟩ | ⟨away, before⟩
      · rcases entry key' found' at'' with ⟨rfl, rfl⟩ | ⟨away', before'⟩
        · rfl
        · exact absurd same.symm (alone key' found' before' away')
      · rcases entry key' found' at'' with ⟨rfl, rfl⟩ | ⟨-, before'⟩
        · exact absurd same (alone key found before away)
        · exact sound.unique key key' found found' before before' same
  · intro key found at'
    rcases entry key found at' with ⟨rfl, rfl⟩ | ⟨-, before⟩
    · exact foreign.keep rfl rfl
    · exact (sound.foreign key found before).keep rfl rfl

theorem refresh_sound (sound : s.Sound) (registered : s.discoveredPeers.get? key = some known) :
    (s.refresh cfg now key nickname ssid known).2.Sound := by
  have entry : ∀ k peer, (s.refresh cfg now key nickname ssid known).2.discoveredPeers.get? k = some peer →
      ∃ before, s.discoveredPeers.get? k = some before ∧
        peer = { before with
          nickname := peer.nickname, ssid := peer.ssid, lastSeen := peer.lastSeen } := by
    intro k peer found
    simp only [refresh, InsertionMap.get?_set] at found
    split at found
    · next here =>
      cases found
      exact ⟨known, here ▸ registered, rfl⟩
    · exact ⟨peer, found, rfl⟩
  constructor
  · constructor
    · intro k peer found
      obtain ⟨before, earlier, same⟩ := entry k peer found
      rw [same]
      exact sound.keyed k before earlier
    · intro k k' peer peer' found found' same
      obtain ⟨before, earlier, eq⟩ := entry k peer found
      obtain ⟨before', earlier', eq'⟩ := entry k' peer' found'
      rw [eq, eq'] at same
      exact sound.unique k k' before before' earlier earlier' same
  · intro k peer found
    obtain ⟨before, earlier, same⟩ := entry k peer found
    obtain ⟨lowered, named, current, previous, remote⟩ := sound.foreign k before earlier
    rw [same]
    exact ⟨lowered, named, current, previous, remote⟩

/-- A peer that had no record at the address of the new one has another place in the registry. -/
theorem announce_changes (registry : (t.announce cfg peer).2.Registry) (before : s.Registry)
    (elsewhere : ∀ known, s.discoveredPeers.get? peer.address = some known → ¬ known.Carries peer.peerId) :
    s.directory peer.peerId ≠ (t.announce cfg peer).2.directory peer.peerId := by
  have after : (t.announce cfg peer).2.directory peer.peerId =
      some (peer.address, peer.nickname, peer.ssid) := by
    apply registry.directory_eq_some.mpr
    exact ⟨peer, by simp [announce], rfl, rfl, rfl⟩
  rw [after]
  intro same
  obtain ⟨known, found, id, -, -⟩ := before.directory_eq_some.mp same
  exact elsewhere known found (congrArg CaseMapping.lower id)

/-- The place of a peer stays, so the registry changes with its name and its network only. -/
theorem refresh_changes (registry : s.Registry) (registered : s.discoveredPeers.get? key = some known)
    (after : (s.refresh cfg now key nickname ssid known).2.Registry) :
    s.directory ≠ (s.refresh cfg now key nickname ssid known).2.directory ↔
      known.nickname ≠ nickname ∨ known.ssid ≠ ssid := by
  have old : s.directory known.peerId = some (key, known.nickname, known.ssid) :=
    registry.directory_eq_some.mpr ⟨known, registered, rfl, rfl, rfl⟩
  have new : (s.refresh cfg now key nickname ssid known).2.directory known.peerId =
      some (key, nickname, ssid) := by
    apply after.directory_eq_some.mpr
    exact ⟨{ known with nickname, ssid, lastSeen := now }, by simp [refresh], rfl, rfl, rfl⟩
  constructor
  · intro differ
    by_contra none
    obtain ⟨rfl, rfl⟩ := not_or.mp none |>.imp not_not.mp not_not.mp
    apply differ
    funext peerId
    ext ⟨k, name, network⟩
    rw [registry.directory_eq_some, after.directory_eq_some]
    simp only [refresh, InsertionMap.get?_set]
    by_cases here : k = key
    · simp [here, registered]
    · simp [here]
  · intro renamed same
    have entries := Option.some.inj (old.symm.trans ((congrFun same known.peerId).trans new))
    obtain ⟨-, name, network⟩ := Prod.mk.injEq .. ▸ entries |>.imp id (Prod.mk.inj ·)
    rcases renamed with other | other
    · exact other name
    · exact other network

theorem mem_priorRecords {peerId address : Str} :
    (key, known) ∈ s.priorRecords peerId address ↔
      s.discoveredPeers.get? key = some known ∧ known.Carries peerId ∧ key ≠ address := by
  simp only [priorRecords, List.mem_filter, InsertionMap.get?_eq_some, RegisteredPeer.Carries,
    decide_eq_true_eq]

/-- A record that replaces all those of its peer, of which none is at its address. -/
structure Replaces (s : LANDiscovery) (kept : InsertionMap Str RegisteredPeer) (peer : RegisteredPeer) :
    Prop where
  placed : peer.address = endpoint peer.ip peer.port
  origin : ∀ key known, kept.get? key = some known → s.discoveredPeers.get? key = some known
  alone : ∀ key known, kept.get? key = some known → key ≠ peer.address → ¬ known.Carries peer.peerId
  elsewhere : ∀ known, s.discoveredPeers.get? peer.address = some known → ¬ known.Carries peer.peerId

/-- A beacon enters a new record, or refreshes one. -/
theorem register_cases (cfg : DiscoverySettings) (now : Seconds) (senderIp : Str) (packet : DiscoveryPacket)
    (registry : s.Registry) :
    (∃ kept peer, peer.ip = senderIp ∧ peer.peerId = packet.peerId ∧ s.Replaces kept peer ∧
      s.register cfg now senderIp packet = announce cfg peer { s with discoveredPeers := kept }) ∨
    ∃ key known nickname ssid, s.discoveredPeers.get? key = some known ∧
      s.register cfg now senderIp packet = s.refresh cfg now key nickname ssid known := by
  unfold register
  simp only
  cases prior : s.priorRecords packet.peerId (endpoint senderIp packet.port) with
  | cons first rest =>
    obtain ⟨key, known⟩ := first
    obtain ⟨found, carries, away⟩ := mem_priorRecords.mp (prior ▸ List.mem_cons_self)
    simp only
    split
    · refine Or.inl ⟨_, _, rfl, rfl, ⟨rfl, ?_, ?_, ?_⟩, rfl⟩
      · intro key known entry
        rw [InsertionMap.get?_filter, Option.filter_eq_some_iff] at entry
        exact entry.1
      · intro key known entry elsewhere same
        rw [InsertionMap.get?_filter, Option.filter_eq_some_iff] at entry
        have stale := mem_priorRecords.mpr ⟨entry.1, same, elsewhere⟩
        rw [prior] at stale
        exact absurd (List.mem_map_of_mem stale) (of_decide_eq_true entry.2)
      · intro other entry same
        exact away (registry.unique _ _ _ _ found entry (carries.trans same.symm))
    · exact Or.inr ⟨key, known, _, _, found, rfl⟩
  | nil =>
    have alone : ∀ key known, s.discoveredPeers.get? key = some known →
        key ≠ endpoint senderIp packet.port → ¬ known.Carries packet.peerId := by
      intro key known entry elsewhere same
      have stale := mem_priorRecords.mpr ⟨entry, same, elsewhere⟩
      rw [prior] at stale
      cases stale
    simp only
    split
    · next free =>
      refine Or.inl ⟨s.discoveredPeers, _, rfl, rfl, ⟨rfl, fun _ _ entry => entry, alone, ?_⟩, rfl⟩
      intro known entry
      cases free.symm.trans entry
    · next existing found =>
      split
      · exact Or.inr ⟨_, existing, _, _, found, rfl⟩
      · next other =>
        refine Or.inl ⟨s.discoveredPeers, _, rfl, rfl, ⟨rfl, fun _ _ entry => entry, alone, ?_⟩, rfl⟩
        intro known entry same
        obtain rfl := Option.some.inj (found.symm.trans entry)
        exact other same

/-- The callback was told of a change exactly when there was one. -/
def Told (cfg : DiscoverySettings) (s : LANDiscovery) (heard : Heard) (t : LANDiscovery) : Prop :=
  heard.announced.isSome ↔ cfg.onPeerDiscovered ∧ s.directory ≠ t.directory

/-- The beacon of a node that is not this one leaves a sound registry and tells of its change. -/
theorem register_sound (sound : s.Sound) (lowered : CaseMapping.lower packet.peerId = packet.peerId)
    (named : packet.peerId ≠ []) (current : packet.peerId ≠ CaseMapping.lower s.localPeerId)
    (previous : packet.peerId ∉ s.previousPeerIds) (remote : isLoopbackSender senderIp = false) :
    (s.register cfg now senderIp packet).2.Sound ∧
      Told cfg s (s.register cfg now senderIp packet).1 (s.register cfg now senderIp packet).2 := by
  rcases register_cases cfg now senderIp packet sound.toRegistry with
    ⟨kept, peer, rfl, id, replaces, same⟩ | ⟨key, known, nickname, ssid, found, same⟩
  · have fewer : Sound { s with discoveredPeers := kept } := sound.shrink rfl rfl replaces.origin
    have foreign : Foreign { s with discoveredPeers := kept } peer := by
      rw [← id] at lowered named current previous
      exact ⟨lowered, named, current, previous, remote⟩
    have next : (announce cfg peer { s with discoveredPeers := kept }).2.Sound :=
      announce_sound fewer foreign replaces.placed replaces.alone
    rw [same]
    refine ⟨next, ?_⟩
    have changes := announce_changes next.toRegistry sound.toRegistry replaces.elsewhere
    have differ : s.directory ≠ (announce cfg peer { s with discoveredPeers := kept }).2.directory :=
      fun equal => changes (congrFun equal _)
    cases set : cfg.onPeerDiscovered with
    | false => simp [Told, announce, set]
    | true => simp [Told, announce, set] at differ ⊢; exact differ
  · have next : (s.refresh cfg now key nickname ssid known).2.Sound := refresh_sound sound found
    rw [same]
    refine ⟨next, ?_⟩
    have changes := refresh_changes sound.toRegistry found next.toRegistry
    rw [Told, changes]
    simp only [refresh]
    cases cfg.onPeerDiscovered with
    | false => simp
    | true => simp

end Registries

section Beacons
variable {s : LANDiscovery} {cfg : DiscoverySettings}

theorem isRateLimited_frame (now : Seconds) (ip : Str) :
    ∃ rateLimiter, (s.isRateLimited now ip).2 = { s with rateLimiter } := by
  have pruned : ∃ rateLimiter,
      (if 256 < s.rateLimiter.size then s.pruneRateLimiter 1 now else s) = { s with rateLimiter } := by
    split
    · exact ⟨_, rfl⟩
    · exact ⟨s.rateLimiter, rfl⟩
  obtain ⟨rateLimiter, pruned⟩ := pruned
  unfold isRateLimited
  simp only [pruned]
  split
  · exact ⟨_, rfl⟩
  · split
    · exact ⟨_, rfl⟩
    · split <;> exact ⟨_, rfl⟩

variable [CaseMapping] [BeaconReader]

theorem fromBytes_peerId [LawfulLower] {raw : Bytes} {packet : DiscoveryPacket}
    (read : DiscoveryPacket.fromBytes raw = some packet) :
    CaseMapping.lower packet.peerId = packet.peerId ∧ packet.peerId ≠ [] := by
  obtain ⟨data, port, accepted, rfl⟩ := fromBytes_eq_some.mp read
  have long := accepted.long
  have named : data.claimedId ≠ [] := List.length_pos_iff.mp (by omega)
  exact ⟨LawfulLower.lower_lower _, named⟩

/-- A beacon leaves a sound registry and tells of its change. -/
theorem processIncomingPacket_sound [LawfulLower] (cfg : DiscoverySettings) (sound : s.Sound)
    (localIps : List Str) (arrived now : Seconds) (data : Bytes) (senderIp : Str) :
    (s.processIncomingPacket cfg localIps arrived now data senderIp).2.Sound ∧
      Told cfg s (s.processIncomingPacket cfg localIps arrived now data senderIp).1
        (s.processIncomingPacket cfg localIps arrived now data senderIp).2 := by
  obtain ⟨limiter, rated⟩ : ∃ rateLimiter,
      (s.isRateLimited arrived (senderHost senderIp)).2 = { s with rateLimiter } := isRateLimited_frame _ _
  have counted : Sound { s with rateLimiter := limiter } := sound.shrink rfl rfl fun _ _ found => found
  have ignored : Told cfg s {} { s with rateLimiter := limiter } := by
    simp only [Told, Option.isSome_none, Bool.false_eq_true, false_iff, not_and, not_not]
    exact fun _ => rfl
  unfold processIncomingPacket
  simp only [rated]
  split
  · exact ⟨counted, ignored⟩
  · split
    · exact ⟨counted, ignored⟩
    · next packet read =>
      split
      · exact ⟨counted, ignored⟩
      · next other =>
        split
        · exact ⟨counted, ignored⟩
        · next remote =>
          obtain ⟨lowered, named⟩ := fromBytes_peerId read
          simp only [isOwnBeacon, decide_eq_true_eq, not_or] at other
          exact register_sound counted lowered named other.1 other.2.1 (Bool.eq_false_iff.mpr remote)

end Beacons

section Runs
variable [CaseMapping] [BeaconReader] [LawfulLower] {cfg : DiscoverySettings} {s t start : LANDiscovery}
  {label : Noted} {history : List (Taken LANDiscovery Noted)}

/-- A step leaves a sound registry, and a beacon tells of its change. -/
theorem step_sound (sound : s.Sound) (step : Step cfg s label t) :
    t.Sound ∧ ∀ localIps arrived now data senderIp,
      label.event = .beacon localIps arrived now data senderIp → Told cfg s label.heard t := by
  obtain ⟨event, heard⟩ := label
  unfold Step perform at step
  cases event with
  | beacon localIps arrived now data senderIp =>
    obtain ⟨next, told⟩ := processIncomingPacket_sound cfg sound localIps arrived now data senderIp
    simp only at step
    rw [step] at next told
    exact ⟨next, fun _ _ _ _ _ _ => told⟩
  | updateIdentity peerId =>
    obtain ⟨-, rfl⟩ := Prod.mk.inj step
    refine ⟨?_, by simp⟩
    by_cases same : CaseMapping.lower peerId = CaseMapping.lower s.localPeerId
    · have kept : s.updateIdentity peerId = { s with localPeerId := peerId } := by
        rw [updateIdentity, if_neg (not_not.mpr same)]
      rw [kept]
      exact sound.shrink same rfl fun _ _ found => found
    · apply sound_of_empty
      rw [updateIdentity, if_pos same]
      rfl
  | updateListeningPort port =>
    obtain ⟨-, rfl⟩ := Prod.mk.inj step
    exact ⟨sound.shrink rfl rfl fun _ _ found => found, by simp⟩
  | pruneStalePeers maxAge now =>
    obtain ⟨-, rfl⟩ := Prod.mk.inj step
    refine ⟨sound.shrink rfl rfl fun key peer found => ?_, by simp⟩
    simp only [pruneStalePeers, InsertionMap.get?_filter, Option.filter_eq_some_iff] at found
    exact found.1
  | clear =>
    obtain ⟨-, rfl⟩ := Prod.mk.inj step
    exact ⟨sound_of_empty rfl, by simp⟩

omit [LawfulLower] in
theorem step_perform (cfg : DiscoverySettings) (event : DiscoveryEvent) (s : LANDiscovery) :
    Step cfg s ⟨event, (s.perform cfg event).1⟩ (s.perform cfg event).2 := rfl

omit [LawfulLower] in
theorem processIncomingPacket_identity (cfg : DiscoverySettings) (s : LANDiscovery) (localIps : List Str)
    (arrived now : Seconds) (data : Bytes) (senderIp : Str) :
    (s.processIncomingPacket cfg localIps arrived now data senderIp).2.localPeerId = s.localPeerId ∧
    (s.processIncomingPacket cfg localIps arrived now data senderIp).2.previousPeerIds =
      s.previousPeerIds := by
  obtain ⟨limiter, rated⟩ : ∃ rateLimiter,
      (s.isRateLimited arrived (senderHost senderIp)).2 = { s with rateLimiter } := isRateLimited_frame _ _
  unfold processIncomingPacket
  simp only [rated]
  split
  · exact ⟨rfl, rfl⟩
  · split
    · exact ⟨rfl, rfl⟩
    · split
      · exact ⟨rfl, rfl⟩
      · split
        · exact ⟨rfl, rfl⟩
        · unfold register
          simp only
          split
          · split <;> exact ⟨rfl, rfl⟩
          · split
            · exact ⟨rfl, rfl⟩
            · split <;> exact ⟨rfl, rfl⟩

/-- No step forgets an id of this node. -/
theorem step_remembers {peerId : Str} (own : s.Remembers peerId) (step : Step cfg s label t) :
    t.Remembers peerId := by
  obtain ⟨event, heard⟩ := label
  unfold Step perform at step
  cases event with
  | beacon localIps arrived now data senderIp =>
    obtain ⟨current, previous⟩ :=
      processIncomingPacket_identity cfg s localIps arrived now data senderIp
    simp only at step
    rw [step] at current previous
    unfold Remembers
    rw [current, previous]
    exact own
  | updateIdentity next =>
    obtain ⟨-, rfl⟩ := Prod.mk.inj step
    unfold updateIdentity Remembers
    rcases own with empty | here | before
    · exact Or.inl empty
    · split
      · by_cases unnamed : s.localPeerId = []
        · exact Or.inl (here.trans (unnamed ▸ LawfulLower.lower_nil))
        · exact Or.inr (Or.inr (by simp [unnamed, here]))
      · next same => exact Or.inr (Or.inl (here.trans (not_not.mp same).symm))
    · refine Or.inr (Or.inr ?_)
      split
      · simp only
        split
        · exact before
        · exact List.mem_cons_of_mem _ before
      · exact before
  | updateListeningPort | pruneStalePeers | clear =>
    obtain ⟨-, rfl⟩ := Prod.mk.inj step
    exact own

/-- In every run from an empty registry each record is under its own address, a peer has one record
at most, and none is of an id that this node has or had or of a loopback address. A beacon calls the
callback exactly when it changes where a peer is, its name or its network. -/
theorem registry_sound (run : Run (Step cfg) start history s) (empty : start.discoveredPeers = .empty) :
    s.Registry ∧
    (∀ key peer, s.discoveredPeers.get? key = some peer →
      (¬ "127.".toList <+: peer.ip ∧ peer.ip ≠ "localhost".toList ∧ peer.ip ≠ "::1".toList) ∧
        ¬ peer.Carries s.localPeerId ∧ ∀ e ∈ history, ¬ peer.Carries e.before.localPeerId) ∧
    ∀ e ∈ history, ∀ localIps arrived now data senderIp,
      e.label.event = .beacon localIps arrived now data senderIp →
      (e.label.heard.announced.isSome ↔ cfg.onPeerDiscovered ∧ e.before.directory ≠ e.after.directory) := by
  have initial : start.Sound := sound_of_empty empty
  have sound : s.Sound := run.invariant initial fun sound step => (step_sound sound step).1
  refine ⟨sound.toRegistry, fun key peer found => ⟨?_, ?_, ?_⟩, ?_⟩
  · exact isLoopbackSender_eq_false.mp (sound.foreign key peer found).remote
  · exact sound.strange (Or.inr (Or.inl rfl)) found
  · intro e member
    obtain ⟨earlier, later, rfl⟩ := List.append_of_mem member
    have kept : s.Remembers e.before.localPeerId := by
      apply run.persists (P := fun s => s.Remembers e.before.localPeerId) (Or.inr (Or.inl rfl))
      intro x within own
      exact step_remembers own (run.stepped (List.mem_append_right _ within))
    exact sound.strange kept found
  · intro e member
    obtain ⟨earlier, later, rfl⟩ := List.append_of_mem member
    obtain ⟨before, step⟩ := run.split
    exact (step_sound (before.invariant initial fun sound step => (step_sound sound step).1) step).2

end Runs

section Sample
attribute [local instance] asciiCase

/-- A short beacon, without the entries that have defaults. -/
def bobText : Str := ("\x7b\"protocol\":\"bitchat\",\"version\":1,\"transport\":\"lan\"," ++
  "\"peer_id\":\"fedcba9876543210\",\"nickname\":\"Bob\",\"port\":41236\x7d").toList

def bobFields : BeaconFields where
  protocol := some "bitchat".toList
  versionIsOne := true
  transport := some "lan".toList
  peerId := "fedcba9876543210".toList
  port := some 41236
  nickname := "Bob".toList
  ssid := []
  instanceId := []

/-- A reader of that text. -/
@[reducible] def bobReader : BeaconReader where
  loads raw := if raw = bobText.map (fun c => UInt8.ofNat c.toNat) then some bobFields else none
  isHex text := text.all fun c => (hexValue c).isSome

attribute [local instance] bobReader

/-- Bob's beacon, from the host with this last number. -/
def bobBeacon (host : String) (now : Seconds) : DiscoveryEvent :=
  .beacon [] now now (bobText.map fun c => UInt8.ofNat c.toNat) ("192.168.1." ++ host ++ ":50123").toList

def listening : LANDiscovery where
  localPeerId := "1111222233334444".toList
  listeningPort := 41235

/-- This node takes another id between two of the beacons, and Bob moves before the last one. -/
def bobEvents : List DiscoveryEvent :=
  [bobBeacon "60" 0, .updateIdentity "5555666677778888".toList, bobBeacon "60" 1, bobBeacon "60" 2,
    bobBeacon "61" 10]

def everyThree : DiscoverySettings := ⟨[], 3, true⟩

def bobHistory : List (Taken LANDiscovery Noted) :=
  Run.answered (perform everyThree) Noted.mk listening bobEvents

theorem bobHistory_run : Run (Step everyThree) listening bobHistory
    (bobEvents.foldl (fun s event => (s.perform everyThree event).2) listening) :=
  Run.of_answered (perform everyThree) Noted.mk fun s event _ => step_perform everyThree event s

/-- The beacons that enter Bob and the one after his move are announced, and they change the
directory. His record is then under the new address alone, and none is of the node's former id. -/
theorem bob_announced :
    (bobHistory.map fun e => e.label.heard.announced.isSome) = [true, false, true, false, true] ∧
    (∀ e ∈ bobHistory, e.label.heard.announced.isSome → e.before.directory ≠ e.after.directory) ∧
    ∃ moved, Run (Step everyThree) listening bobHistory moved ∧
      moved.discoveredPeers.entries.map Prod.fst = ["192.168.1.61:41236".toList] ∧
      ∀ key peer, moved.discoveredPeers.get? key = some peer → ¬ peer.Carries "1111222233334444".toList := by
  have : LawfulLower := asciiCase_lawfulLower
  obtain ⟨-, foreign, told⟩ := registry_sound bobHistory_run rfl
  refine ⟨by decide +kernel, fun e member announced => ?_, _, bobHistory_run, by decide +kernel,
    fun key peer found => (foreign key peer found).2.2 ⟨listening, _, _⟩ List.mem_cons_self⟩
  cases event : e.label.event with
  | beacon localIps arrived now data senderIp =>
    exact ((told e member _ _ _ _ _ event).mp announced).2
  | updateIdentity | updateListeningPort | pruneStalePeers | clear =>
    have step : e.before.perform everyThree e.label.event = _ := bobHistory_run.stepped member
    rw [event] at step
    have silent : e.label.heard = {} := (congrArg Prod.fst step).symm
    rw [silent] at announced
    cases announced

end Sample
end LANDiscovery
end Bitchat.Lan
