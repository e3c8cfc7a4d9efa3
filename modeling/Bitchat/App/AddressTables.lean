import Bitchat.App.Relaying
import Bitchat.Data.Run

/-! The two address tables of a coordinator: where a peer is reached, and which peer is at an
address. They come apart when a packet gives an address to another peer, whose former entry
stays, and when a peer that lost its link is sent to an address that is another's by now. -/
namespace Bitchat.App.MeshCoordinator
open Crypto Protocol Mesh Str

variable {τ : Type}

/-- Where a peer is reached is known to be that peer's address. -/
def Agree (c : MeshCoordinator τ) : Prop :=
  ∀ peer address, c.peerAddresses.get? peer = some address →
    c.addressToPeerId.get? address = some peer

/-- Every peer at an address has a name. -/
def Named (c : MeshCoordinator τ) : Prop :=
  ∀ address peer, c.addressToPeerId.get? address = some peer → peer ≠ []

def tables (c : MeshCoordinator τ) : InsertionMap Str Str × InsertionMap Str Str :=
  (c.peerAddresses, c.addressToPeerId)

/-- No other peer is reached at the address. -/
def Unclaimed (sender address : Str) (c : MeshCoordinator τ) : Prop :=
  ∀ peer, c.peerAddresses.get? peer = some address → peer = sender

section Conditions
variable [BaseTransport τ] [CaseMapping]

/-- The first address at which a peer is discovered. -/
def discoveredAt (peer : Str) (c : MeshCoordinator τ) : Option Str :=
  ((BaseTransport.discoveredPeers c.transport).find? fun e =>
    e.2 ≠ [] ∧ CaseMapping.lower e.2 = CaseMapping.lower peer).map Prod.fst

/-- The peer of a lost link that is reached nowhere else is discovered nowhere else or at an
address of its own. -/
def Restorable (address : Str) (c : MeshCoordinator τ) : Prop :=
  ∀ peer, c.addressToPeerId.get? address = some peer →
    (∀ other, c.peerAddresses.get? peer = some other → other = address) →
    ∀ discovered, c.discoveredAt peer = some discovered → discovered ≠ address →
      ∀ owner, c.addressToPeerId.get? discovered = some owner → owner = peer

/-- A direct neighbour that a task learns about is at an address where no other peer is reached. -/
def SettledTask (cfg : MeshSettings) (c : MeshCoordinator τ) : RelayTask → Prop
  | .process packet (some address) =>
    CaseMapping.lower (hex packet.senderId) ≠ CaseMapping.lower cfg.localPeerIdHex →
      address ≠ [] → (hex packet.senderId = address ∨ 7 ≤ packet.ttl) →
      c.Unclaimed (hex packet.senderId) address
  | _ => True

/-- The events that keep the address tables in agreement. -/
def Orderly (cfg : MeshSettings) (c : MeshCoordinator τ) : MeshEvent τ → Prop
  | .run i _ _ => ∀ task ∈ c.backgroundTasks[i]?, c.SettledTask cfg task
  | .disconnected address => c.Restorable address
  | _ => True

instance (sender address : Str) (c : MeshCoordinator τ) : Decidable (c.Unclaimed sender address) :=
  decidable_of_iff (∀ e ∈ c.peerAddresses.entries, e.2 = address → e.1 = sender)
    ⟨fun all peer reached => all (peer, address) (InsertionMap.get?_eq_some.mp reached) rfl,
      fun unclaimed e member here => unclaimed e.1 (here ▸ InsertionMap.get?_eq_some_of_mem member)⟩

instance (address : Str) (c : MeshCoordinator τ) : Decidable (c.Restorable address) :=
  inferInstanceAs (Decidable (∀ peer ∈ c.addressToPeerId.get? address,
    (∀ other ∈ c.peerAddresses.get? peer, other = address) → ∀ discovered ∈ c.discoveredAt peer,
      discovered ≠ address → ∀ owner ∈ c.addressToPeerId.get? discovered, owner = peer))

instance (cfg : MeshSettings) (c : MeshCoordinator τ) : (task : RelayTask) →
    Decidable (c.SettledTask cfg task)
  | .process _ (some _) => inferInstanceAs (Decidable (_ → _ → _ → Unclaimed _ _ c))
  | .process _ none | .relay .. | .broadcast .. | .relaySend .. | .flush .. | .flushTo .. => isTrue trivial

instance (cfg : MeshSettings) (c : MeshCoordinator τ) : (event : MeshEvent τ) →
    Decidable (Orderly cfg c event)
  | .run i _ _ => inferInstanceAs (Decidable (∀ task ∈ c.backgroundTasks[i]?, c.SettledTask cfg task))
  | .disconnected address => inferInstanceAs (Decidable (c.Restorable address))
  | .incoming .. | .send .. | .connected .. | .discovered .. | .prune .. | .transport .. | .running ..
  | .resetSessionState | .stop => isTrue trivial

end Conditions

section Tables
variable {c d : MeshCoordinator τ}

theorem agree_congr (same : d.tables = c.tables) : d.Agree ↔ c.Agree := by
  obtain ⟨addresses, peers⟩ := Prod.mk.inj same
  rw [Agree, Agree, addresses, peers]

theorem named_congr (same : d.tables = c.tables) : d.Named ↔ c.Named := by
  rw [Named, Named, (Prod.mk.inj same).2]

variable [BaseTransport τ]

/-- A direct neighbour is noted without harm where no other peer is reached. -/
theorem noteAddress_agree {sender address : Str} (agree : c.Agree) :
    (c.noteAddress sender address).Agree ↔ c.Unclaimed sender address := by
  constructor
  · intro after peer reached
    by_contra other
    have kept : (c.noteAddress sender address).peerAddresses.get? peer = some address := by
      simp only [noteAddress]
      split
      · exact reached
      · simp [other, reached]
    have owner := after peer address kept
    simp only [noteAddress, InsertionMap.get?_set, if_true, Option.some.injEq] at owner
    exact other owner.symm
  · intro unclaimed peer place reached
    have before : peer = sender ∧ place = address ∨ c.peerAddresses.get? peer = some place := by
      simp only [noteAddress] at reached
      split at reached
      · exact Or.inr reached
      · rw [InsertionMap.get?_set] at reached
        split at reached
        · next same => exact Or.inl ⟨same, (Option.some.inj reached).symm⟩
        · exact Or.inr reached
    simp only [noteAddress, InsertionMap.get?_set]
    rcases before with ⟨rfl, rfl⟩ | before
    · simp
    · by_cases here : place = address
      · subst here
        simp [unclaimed peer before]
      · simp [here, agree peer place before]

theorem noteAddress_named {sender address : Str} (named : c.Named) (sender_named : sender ≠ []) :
    (c.noteAddress sender address).Named := by
  intro place peer found
  simp only [noteAddress, InsertionMap.get?_set] at found
  split at found
  · exact Option.some.inj found ▸ sender_named
  · exact named place peer found

omit [BaseTransport τ] in
/-- A peer is entered at an address where no other peer is reached. -/
theorem enter_agree {addresses peers : InsertionMap Str Str} {peer address : Str} (agree : c.Agree)
    (fewer : ∀ p a, addresses.get? p = some a →
      c.peerAddresses.get? p = some a ∧ (a = address → p = peer))
    (others : ∀ a p, p ≠ peer → c.addressToPeerId.get? a = some p → peers.get? a = some p) :
    Agree { c with
      peerAddresses := addresses.set peer address
      addressToPeerId := peers.set address peer } := by
  intro p a reached
  simp only [InsertionMap.get?_set] at reached ⊢
  split at reached
  · next same => rw [← Option.some.inj reached, if_pos rfl, same]
  · next other =>
    obtain ⟨before, alone⟩ := fewer p a reached
    rw [if_neg fun here => other (alone here)]
    exact others a p other (agree p a before)

variable [CaseMapping] {cfg : MeshSettings} {address peerId : Str}

/-- A discovered peer takes the place of the peer that was at its address. -/
theorem handlePeerDiscovered_agree (agree : c.Agree) (named : c.Named) :
    (c.handlePeerDiscovered cfg address peerId).Agree := by
  unfold handlePeerDiscovered
  simp only
  split
  · exact agree
  · refine enter_agree agree ?_ ?_
    · intro p a reached
      cases owner : c.addressToPeerId.get? address with
      | none =>
        simp only [owner] at reached
        refine ⟨reached, ?_⟩
        rintro rfl
        rw [agree p a reached] at owner
        cases owner
      | some previous =>
        simp only [owner] at reached
        split at reached
        · rw [InsertionMap.get?_erase] at reached
          split at reached
          · cases reached
          · next other =>
            refine ⟨reached, ?_⟩
            rintro rfl
            rw [agree p a reached] at owner
            exact absurd (Option.some.inj owner) other
        · next kept =>
          refine ⟨reached, ?_⟩
          rintro rfl
          rw [agree p a reached] at owner
          obtain rfl := Option.some.inj owner
          by_contra other
          exact kept ⟨named a p (agree p a reached), other, reached⟩
    · intro a p other owner
      split
      · exact owner
      · split
        · next previous _ gone =>
          rw [InsertionMap.get?_erase, if_neg]
          · exact owner
          · rintro rfl
            rw [gone.2.2.2] at owner
            exact other (Option.some.inj owner).symm
        · exact owner

theorem handlePeerDiscovered_named (named : c.Named) :
    (c.handlePeerDiscovered cfg address peerId).Named := by
  unfold handlePeerDiscovered
  simp only
  split
  · exact named
  · next usable =>
    intro a p found
    simp only [InsertionMap.get?_set] at found
    split at found
    · exact Option.some.inj found ▸ fun empty => usable (Or.inl empty)
    · refine named a p ?_
      split at found
      · exact found
      · split at found
        · rw [InsertionMap.get?_erase] at found
          split at found
          · cases found
          · exact found
        · exact found

omit [BaseTransport τ] [CaseMapping] in
/-- A new entry for an address without one leaves all others. -/
theorem get?_setDefault {peers : InsertionMap Str Str} {place peer a p : Str} (found : peers.get? a = some p) :
    (if peers.contains place then peers else peers.set place peer).get? a = some p := by
  split
  · exact found
  · next absent =>
    have other : a ≠ place := fun same => absent (InsertionMap.contains_iff.mpr ⟨p, same ▸ found⟩)
    rw [InsertionMap.get?_set, if_neg other]
    exact found

omit [BaseTransport τ] [CaseMapping] in
/-- A peer without an address may be sent to one that is nobody's or its own. -/
theorem restore_agree {addresses peers : InsertionMap Str Str} {peer place : Str}
    (agree : Agree { c with peerAddresses := addresses, addressToPeerId := peers }) :
    Agree { c with
      peerAddresses := addresses.set peer place
      addressToPeerId := if peers.contains place then peers else peers.set place peer } ↔
    ∀ owner, peers.get? place = some owner → owner = peer := by
  constructor
  · intro after owner found
    have settled := after peer place (by simp)
    have same := (get?_setDefault found).symm.trans settled
    exact Option.some.inj same
  · intro own p a reached
    simp only [InsertionMap.get?_set] at reached ⊢
    split at reached
    · next same =>
      obtain rfl := Option.some.inj reached
      rw [same]
      split
      · next known =>
        obtain ⟨owner, found⟩ := InsertionMap.contains_iff.mp known
        rw [found, own owner found]
      · simp
    · exact get?_setDefault (agree p a reached)

/-- Where peers are reached when the link of one of them is gone. -/
def remaining (peer address : Str) (c : MeshCoordinator τ) : InsertionMap Str Str :=
  if c.peerAddresses.get? peer = some address then c.peerAddresses.erase peer else c.peerAddresses

omit [BaseTransport τ] [CaseMapping] in
theorem remaining_get? {peer p a : Str} : (c.remaining peer address).get? p = some a ↔
    c.peerAddresses.get? p = some a ∧ ¬ (p = peer ∧ a = address) := by
  unfold remaining
  split
  · next here =>
    rw [InsertionMap.get?_erase]
    by_cases same : p = peer
    · subst same
      simp only [here, if_true, true_and, Option.some.injEq, reduceCtorEq, false_iff, not_and, not_not]
      exact Eq.symm
    · simp [same]
  · next elsewhere =>
    refine ⟨fun reached => ⟨reached, ?_⟩, And.left⟩
    rintro ⟨rfl, rfl⟩
    exact elsewhere reached

omit [BaseTransport τ] [CaseMapping] in
theorem remaining_agree {peer : Str} (agree : c.Agree)
    (owner : c.addressToPeerId.get? address = some peer) :
    Agree { c with
      peerAddresses := c.remaining peer address
      addressToPeerId := c.addressToPeerId.erase address } := by
  intro p a reached
  obtain ⟨before, other⟩ := remaining_get?.mp reached
  have known := agree p a before
  rw [InsertionMap.get?_erase, if_neg]
  · exact known
  · rintro rfl
    exact other ⟨Option.some.inj (known.symm.trans owner), rfl⟩

theorem handlePeerDisconnected_eq {peer : Str} (named : peer ≠ [])
    (owner : c.addressToPeerId.get? address = some peer) :
    c.handlePeerDisconnected address =
      match c.discoveredAt peer with
      | none => { c with
          peerAddresses := c.remaining peer address
          addressToPeerId := c.addressToPeerId.erase address }
      | some discovered => { c with
          peerAddresses := if (c.remaining peer address).contains peer then c.remaining peer address
            else (c.remaining peer address).set peer discovered
          addressToPeerId := if (c.addressToPeerId.erase address).contains discovered
            then c.addressToPeerId.erase address
            else (c.addressToPeerId.erase address).set discovered peer } := by
  simp only [handlePeerDisconnected, owner, if_neg named, discoveredAt]
  cases (BaseTransport.discoveredPeers c.transport).find? fun e =>
      e.2 ≠ [] ∧ CaseMapping.lower e.2 = CaseMapping.lower peer with
  | none => rfl
  | some entry => rfl

/-- A peer that lost its link keeps the tables in agreement when no other peer is at the address
it is sent to. -/
theorem handlePeerDisconnected_agree (agree : c.Agree) (named : c.Named) :
    (c.handlePeerDisconnected address).Agree ↔ c.Restorable address := by
  cases owner : c.addressToPeerId.get? address with
  | none =>
    have unchanged : c.handlePeerDisconnected address = c := by
      unfold handlePeerDisconnected
      simp only [owner]
    rw [unchanged]
    exact iff_of_true agree fun peer found => by simp [owner] at found
  | some peer =>
    have left := remaining_agree agree owner
    rw [handlePeerDisconnected_eq (named address peer owner) owner]
    have condition : c.Restorable address ↔
        ((∀ other, c.peerAddresses.get? peer = some other → other = address) →
          ∀ discovered, c.discoveredAt peer = some discovered → discovered ≠ address →
            ∀ holder, c.addressToPeerId.get? discovered = some holder → holder = peer) := by
      simp only [Restorable, owner, Option.some.injEq, forall_eq']
    rw [condition]
    cases found : c.discoveredAt peer with
    | none => exact iff_of_true left fun _ _ impossible => by cases impossible
    | some discovered =>
      simp only [Option.some.injEq, forall_eq']
      by_cases reached : (c.remaining peer address).contains peer
      · rw [if_pos reached]
        obtain ⟨other, entry⟩ := InsertionMap.contains_iff.mp reached
        obtain ⟨before, away⟩ := remaining_get?.mp entry
        exact iff_of_true (fun p a h => get?_setDefault (left p a h))
          fun only => absurd ⟨rfl, only other before⟩ away
      · have only : ∀ other, c.peerAddresses.get? peer = some other → other = address := by
          intro other before
          by_contra away
          exact reached (InsertionMap.contains_iff.mpr
            ⟨other, remaining_get?.mpr ⟨before, fun both => away both.2⟩⟩)
        rw [if_neg reached, restore_agree left]
        constructor
        · intro own _ away holder at'
          exact own holder (by rw [InsertionMap.get?_erase, if_neg away, at'])
        · intro own holder at'
          rw [InsertionMap.get?_erase] at at'
          split at at'
          · cases at'
          · next away => exact own only away holder at'

theorem handlePeerDisconnected_named (named : c.Named) : (c.handlePeerDisconnected address).Named := by
  cases owner : c.addressToPeerId.get? address with
  | none =>
    unfold handlePeerDisconnected
    simp only [owner]
    exact named
  | some peer =>
    have erased : ∀ a p, (c.addressToPeerId.erase address).get? a = some p → p ≠ [] := by
      intro a p found
      rw [InsertionMap.get?_erase] at found
      split at found
      · cases found
      · exact named a p found
    rw [handlePeerDisconnected_eq (named address peer owner) owner]
    cases c.discoveredAt peer with
    | none => exact erased
    | some discovered =>
      intro a p found
      simp only at found
      split at found
      · exact erased a p found
      · rw [InsertionMap.get?_set] at found
        split at found
        · exact Option.some.inj found ▸ named address peer owner
        · exact erased a p found

end Tables

section Frames
variable [BaseTransport τ] [CaseMapping] {cfg : MeshSettings} {fuel : Nat} {now : Seconds}
  {writes : Writes} {packet : BitchatPacket} {target : Str} {exclude : Option Str}
  {ended : List Ending} {c d : MeshCoordinator τ}

omit [BaseTransport τ] in
theorem flushPending_tables (peer : Str) (task : BitchatPacket → RelayTask) :
    (c.flushPending cfg now peer task).tables = c.tables := by
  unfold flushPending
  split
  · rfl
  · rfl

omit [BaseTransport τ] in
theorem store_tables (stored : c.store cfg fuel now target packet = some (ended, d)) :
    d.tables = c.tables := by
  unfold store at stored
  split at stored
  · cases stored
  · obtain ⟨-, rfl⟩ := Prod.mk.inj (Option.some.inj stored)
    rfl

theorem linkTowards_tables : (c.linkTowards cfg now target).2.tables = c.tables := by
  unfold linkTowards
  split
  · rfl
  · simp only
    split
    · rfl
    · rfl

theorem learnPeer_tables (peerAddress : Option Str) :
    (c.learnPeer cfg now packet peerAddress).tables =
      match peerAddress with
      | some address =>
        if address ≠ [] ∧ (hex packet.senderId = address ∨ 7 ≤ packet.ttl) then
          (c.noteAddress (hex packet.senderId) address).tables
        else c.tables
      | none => c.tables := by
  unfold learnPeer
  cases peerAddress with
  | none => rfl
  | some address =>
    by_cases empty : address = []
    · simp [empty]
    · by_cases direct : hex packet.senderId = address ∨ 7 ≤ packet.ttl
      · simp only [if_pos direct, ne_eq, empty, not_false_eq_true, true_and]
        rfl
      · simp only [if_neg direct, ne_eq, empty, not_false_eq_true, true_and]
        rfl

variable [Primitives]

theorem relayOnward_tables
    (relayed : c.relayOnward cfg fuel now writes packet target exclude = some (ended, d)) :
    d.tables = c.tables := by
  unfold relayOnward at relayed
  split at relayed
  · exact store_tables relayed
  · obtain ⟨-, rfl⟩ := Prod.mk.inj (Option.some.inj relayed)
    rfl

theorem relayTowards_tables
    (relayed : c.relayTowards cfg fuel now writes packet target exclude = some (ended, d)) :
    d.tables = c.tables := by
  have frame : (c.linkTowards cfg now target).2.tables = c.tables := linkTowards_tables
  unfold relayTowards at relayed
  simp only at relayed
  split at relayed
  · obtain ⟨-, rfl⟩ := Prod.mk.inj (Option.some.inj relayed)
    exact frame
  · exact (relayOnward_tables relayed).trans frame

theorem sendPacket_tables (target : Str) :
    (c.sendPacket cfg now writes target packet).2.tables = c.tables := by
  have frame : ((c.record cfg now packet).linkTowards cfg now target).2.tables = c.tables :=
    linkTowards_tables
  unfold sendPacket
  simp only
  split
  · exact frame
  · exact frame

theorem relayPacket_tables {target : Option Str}
    (relayed : c.relayPacket cfg fuel now writes packet target exclude = some (ended, d)) :
    d.tables = c.tables := by
  unfold relayPacket at relayed
  cases target with
  | none =>
    obtain ⟨-, rfl⟩ := Prod.mk.inj (Option.some.inj relayed)
    split
    · rfl
    · rfl
  | some target =>
    simp only at relayed
    split at relayed
    · exact relayTowards_tables relayed
    · obtain ⟨-, rfl⟩ := Prod.mk.inj (Option.some.inj relayed)
      rfl

omit [BaseTransport τ] in
theorem handleIncomingPacket_tables {peerAddress : Option Str}
    (handled : c.handleIncomingPacket cfg fuel now packet peerAddress = some (ended, d)) :
    d.tables = c.tables := by
  unfold handleIncomingPacket at handled
  simp only at handled
  split at handled
  · obtain ⟨-, rfl⟩ := Prod.mk.inj (Option.some.inj handled)
    split
    · rfl
    · rfl
  · split at handled
    · obtain ⟨-, rfl⟩ := Prod.mk.inj (Option.some.inj handled)
      rfl
    · exact (store_tables handled).trans rfl
  · obtain ⟨-, rfl⟩ := Prod.mk.inj (Option.some.inj handled)
    split
    · rfl
    · rfl

/-- Only a task that processes a packet writes the tables. -/
theorem runTask_tables {task : RelayTask} (ran : c.runTask cfg fuel now writes task = some (ended, d))
    (other : ∀ packet address, task ≠ .process packet address) : d.tables = c.tables := by
  unfold runTask at ran
  cases task with
  | process packet address => exact absurd rfl (other packet address)
  | relay packet target exclude => exact relayPacket_tables ran
  | broadcast packet exclude =>
    obtain ⟨-, rfl⟩ := Prod.mk.inj (Option.some.inj ran)
    split
    · rfl
    · rfl
  | relaySend address packet target exclude =>
    simp only at ran
    split at ran
    · obtain ⟨-, rfl⟩ := Prod.mk.inj (Option.some.inj ran)
      rfl
    · exact relayOnward_tables ran
  | flush peer packet =>
    obtain ⟨-, rfl⟩ := Prod.mk.inj (Option.some.inj ran)
    exact sendPacket_tables peer
  | flushTo address packet =>
    obtain ⟨-, rfl⟩ := Prod.mk.inj (Option.some.inj ran)
    rfl

end Frames

section Steps
variable [BaseTransport τ] [CaseMapping] {cfg : MeshSettings} {fuel : Nat} {now : Seconds}
  {packet : BitchatPacket} {ended : List Ending} {c d : MeshCoordinator τ}

theorem processPacket_tables (peerAddress : Option Str) :
    (c.processPacket cfg now packet peerAddress).tables =
      if CaseMapping.lower (hex packet.senderId) = CaseMapping.lower cfg.localPeerIdHex then c.tables
      else (c.learnPeer cfg now packet peerAddress).tables := by
  unfold processPacket
  simp only
  split
  · rfl
  · split
    · exact flushPending_tables _ _
    · rfl

omit [BaseTransport τ] [CaseMapping] in
theorem sender_ne_nil (packet : BitchatPacket) : hex packet.senderId ≠ [] := by
  intro empty
  have size := congrArg List.length empty
  rw [hex_length, packet.senderId_size] at size
  exact absurd size (by decide)

theorem processPacket_agree (agree : c.Agree) (named : c.Named) (peerAddress : Option Str) :
    ((c.processPacket cfg now packet peerAddress).Agree ↔
      c.SettledTask cfg (.process packet peerAddress)) ∧
    (c.processPacket cfg now packet peerAddress).Named := by
  have tables : (c.processPacket cfg now packet peerAddress).tables = _ := processPacket_tables peerAddress
  split at tables
  · next own =>
    refine ⟨iff_of_true ((agree_congr tables).mpr agree) ?_, (named_congr tables).mpr named⟩
    cases peerAddress with
    | none => trivial
    | some address => exact fun other => absurd own other
  · next foreign =>
    rw [learnPeer_tables] at tables
    cases peerAddress with
    | none => exact ⟨iff_of_true ((agree_congr tables).mpr agree) trivial, (named_congr tables).mpr named⟩
    | some address =>
      simp only at tables
      split at tables
      · next direct =>
        rw [agree_congr tables, named_congr tables, noteAddress_agree agree]
        refine ⟨⟨fun unclaimed _ _ _ => unclaimed, fun settled => ?_⟩,
          noteAddress_named named (sender_ne_nil packet)⟩
        exact settled foreign direct.1 direct.2
      · next distant =>
        refine ⟨iff_of_true ((agree_congr tables).mpr agree) ?_, (named_congr tables).mpr named⟩
        exact fun _ known direct => absurd ⟨known, direct⟩ distant

variable [Primitives]

/-- An event keeps the tables in agreement exactly when it is orderly. -/
theorem perform_agree {event : MeshEvent τ} (agree : c.Agree) (named : c.Named)
    (performed : c.perform cfg fuel event = some (ended, d)) :
    (d.Agree ↔ Orderly cfg c event) ∧ d.Named := by
  have same (tables : d.tables = c.tables) : (d.Agree ↔ True) ∧ d.Named :=
    ⟨iff_of_true ((agree_congr tables).mpr agree) trivial, (named_congr tables).mpr named⟩
  cases event with
  | incoming now packet peerAddress => exact same (handleIncomingPacket_tables performed)
  | run i now writes =>
    simp only [perform] at performed
    simp only [Orderly]
    cases found : c.backgroundTasks[i]? with
    | none =>
      simp only [found, Option.some.injEq, Prod.mk.injEq] at performed
      obtain ⟨-, rfl⟩ := performed
      simp [agree, named]
    | some task =>
      simp only [found] at performed
      simp only [Option.mem_some_iff, forall_eq']
      cases task with
      | process packet peerAddress =>
        obtain ⟨-, rfl⟩ := Prod.mk.inj (Option.some.inj performed)
        exact processPacket_agree (c := { c with backgroundTasks := c.backgroundTasks.eraseIdx i })
          agree named peerAddress
      | _ =>
        exact same (runTask_tables (c := { c with backgroundTasks := c.backgroundTasks.eraseIdx i })
          performed (by simp))
  | send now target packet =>
    obtain ⟨-, rfl⟩ := Prod.mk.inj (Option.some.inj performed)
    cases target with
    | none => exact same rfl
    | some peer => exact same linkTowards_tables
  | connected now address =>
    obtain ⟨-, rfl⟩ := Prod.mk.inj (Option.some.inj performed)
    refine same ?_
    unfold handlePeerConnected
    split
    · rfl
    · split
      · rfl
      · exact flushPending_tables _ _
  | disconnected address =>
    obtain ⟨-, rfl⟩ := Prod.mk.inj (Option.some.inj performed)
    exact ⟨handlePeerDisconnected_agree agree named, handlePeerDisconnected_named named⟩
  | discovered address peerId =>
    obtain ⟨-, rfl⟩ := Prod.mk.inj (Option.some.inj performed)
    exact ⟨iff_of_true (handlePeerDiscovered_agree agree named) trivial, handlePeerDiscovered_named named⟩
  | resetSessionState =>
    obtain ⟨-, rfl⟩ := Prod.mk.inj (Option.some.inj performed)
    refine ⟨iff_of_true (fun p a reached => ?_) trivial, fun a p found => ?_⟩
    · rw [InsertionMap.get?_empty] at reached
      cases reached
    · rw [InsertionMap.get?_empty] at found
      cases found
  | prune | transport | running | stop =>
    obtain ⟨-, rfl⟩ := Prod.mk.inj (Option.some.inj performed)
    exact same rfl

/-- In a run from empty tables they agree after every event exactly when every event is orderly.
Tables that agree map no two peers to one address, and a packet for a peer goes to a link that is
the peer's or has its name. -/
theorem address_tables_agree {start : MeshCoordinator τ}
    {history : List (Taken (MeshCoordinator τ) (Performed τ))} (run : Run (Step cfg) start history c)
    (fresh : start.tables = (.empty, .empty)) :
    ((∀ e ∈ history, e.after.Agree) ↔ ∀ e ∈ history, Orderly cfg e.before e.label.event) ∧
    ∀ c : MeshCoordinator τ, c.Agree →
      (∀ p q address, c.peerAddresses.get? p = some address →
        c.peerAddresses.get? q = some address → p = q) ∧
      ∀ target address, c.resolveConnectedPeerAddress target = some address →
        address = target ∨ ∃ peer, c.addressToPeerId.get? address = some peer ∧
          CaseMapping.lower peer = CaseMapping.lower target := by
  refine ⟨?_, fun c agree => ⟨fun p q address first second => ?_, fun target address found => ?_⟩⟩
  · apply run.meets_iff (P := fun c => c.Agree ∧ c.Named) (Q := fun _ _ d => d.Agree)
      (C := fun c label => Orderly cfg c label.event)
    · obtain ⟨addresses, peers⟩ := Prod.mk.inj fresh
      constructor
      · intro p a reached
        simp [addresses] at reached
      · intro a p found
        simp [peers] at found
    · rintro c label d ⟨agree, named⟩ ⟨fuel, performed⟩
      exact (perform_agree agree named performed).1
    · rintro c label d ⟨agree, named⟩ orderly ⟨fuel, performed⟩
      obtain ⟨exact', named'⟩ := perform_agree agree named performed
      exact ⟨exact'.mpr orderly, named'⟩
  · have same := (agree p address first).symm.trans (agree q address second)
    exact Option.some.inj same
  · unfold resolveConnectedPeerAddress at found
    simp only [Option.or_eq_some_iff] at found
    rcases found with reached | ⟨-, known | ⟨-, own⟩⟩
    · obtain ⟨entry, -⟩ := Option.filter_eq_some_iff.mp reached
      exact Or.inr ⟨target, agree target address entry, rfl⟩
    · obtain ⟨entry, first, rfl⟩ := Option.map_eq_some_iff.mp known
      have chosen := List.find?_some first
      have listed := InsertionMap.get?_eq_some_of_mem (List.mem_of_find?_eq_some first)
      exact Or.inr ⟨entry.2, listed, (of_decide_eq_true chosen).1⟩
    · split at own
      · exact Or.inl (Option.some.inj own).symm
      · cases own

end Steps
end Bitchat.App.MeshCoordinator

namespace Bitchat.App.MeshCoordinator
open Crypto Protocol Mesh Lan Str Modular
attribute [local instance] Modular.primitives asciiCase Python.asciiDigits

/-- Where the neighbour of the node listens. -/
def listener : Str := "192.168.1.20:41235".toList

/-- The coordinator of the node with one dialed connection. -/
def dialer : MeshCoordinator LANTransport where
  transport := (lanNode.connectPeer listener).2.connected 0

def neighbourId : Str := hex (List.replicate 8 9)
def strangerId : Str := hex (List.replicate 8 1)

def discovering : MeshEvent LANTransport := .discovered listener neighbourId

/-- A packet that claims to be from a direct neighbour. -/
def claiming : MeshEvent LANTransport := .incoming 0 (.note 1 7) (some listener)

/-- Where the neighbour listens after it has moved. -/
def elsewhere : Str := "192.168.1.30:41235".toList

def writable : Writes := ⟨fun _ => true, false⟩

/-- The neighbour is discovered and connects, sends a packet of its own and relays one, and is
discovered elsewhere before its link is lost. -/
def meeting : List (MeshEvent LANTransport) :=
  let moved := { dialer.transport with
    discoveredPeers := InsertionMap.empty.set elsewhere ⟨hostOf elsewhere, neighbourId⟩ }
  [discovering, .connected 0 listener, .incoming 0 (.note 9 7) (some listener), .run 0 0 writable,
    .incoming 1 (BitchatPacket.note 1 7).lastHop (some listener), .run 1 1 writable,
    .transport moved, .disconnected listener]

def meetingHistory : List (Taken (MeshCoordinator LANTransport) (Performed LANTransport)) :=
  Run.answered after Performed.mk dialer meeting

theorem meetingHistory_run : Run (Step courierSettings) dialer meetingHistory
    (meeting.foldl (fun c event => (after event c).2) dialer) := by
  have ends : ∀ e ∈ meetingHistory, (e.before.perform courierSettings 9 e.label.event).isSome = true := by
    decide +kernel
  apply Run.of_steps after Performed.mk
  intro e member
  have ended := ends e member
  obtain ⟨event, _, same⟩ := Run.mem_answered after Performed.mk member
  rw [same] at ended ⊢
  exact step_after event ended

/-- The tables agree all the time, and in the end the neighbour is reached where it has moved. -/
theorem discovered_agrees : (∀ e ∈ meetingHistory, e.after.Agree) ∧
    (meetingHistory.getLast?.bind fun e => e.after.peerAddresses.get? neighbourId) = some elsewhere := by
  have orderly : ∀ e ∈ meetingHistory, Orderly courierSettings e.before e.label.event := by decide +kernel
  exact ⟨(address_tables_agree meetingHistory_run rfl).1.mpr orderly, by decide +kernel⟩

/-- A packet over the link of a neighbour moves the link to its sender, and the neighbour stays
reached there: its messages go to the sender's link. -/
theorem link_of_two_peers : ∃ history c, Run (Step courierSettings) dialer history c ∧ ¬ c.Agree ∧
    c.peerAddresses.get? neighbourId = some listener ∧ c.peerAddresses.get? strangerId = some listener ∧
    c.addressToPeerId.get? listener = some strangerId ∧
    c.resolveConnectedPeerAddress neighbourId = some listener := by
  have run : Run (Step courierSettings) dialer _ _ :=
    ((Run.nil.snoc (step_after discovering (by decide +kernel))).snoc
      (step_after claiming (by decide +kernel))).snoc
      (step_after (.run 0 0 ⟨fun _ => true, false⟩) (by decide +kernel))
  refine ⟨_, _, run, fun agree => ?_, by decide +kernel⟩
  exact absurd (agree neighbourId listener (by decide +kernel)) (by decide +kernel)

end Bitchat.App.MeshCoordinator
