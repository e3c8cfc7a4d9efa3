import Bitchat.App.Relaying

/-! The nicknames of the peers that a coordinator knows. Announcements and discoveries store them,
unless they are blank or belong to this node or to another peer. The test for another peer strips the
id of the peer, while a discovered peer is entered without stripping its id. -/
namespace Bitchat.App
open Crypto Protocol Mesh Str

/-- The text of bytes, with replacements for what is no UTF-8; results that use it hold for any. -/
class TextDecoder where
  decode : Bytes → Str

/-- Nicknames are the same when they are equal in this form. -/
def foldName [CaseMapping] (name : Str) : Str := CaseMapping.lower (strip name)

/-- The coordinator with the nicknames. -/
structure NamedCoordinator (τ : Type) where
  mesh : MeshCoordinator τ
  nickname : Str
  peerNicknames : InsertionMap Str Str := .empty

inductive NameEvent (τ : Type) where
  | mesh (event : MeshEvent τ)
  /-- The name is the first of `name` and `nickname` that the discovered peer has. -/
  | discovered (address peerId : Str) (name : Option Str)
  | setNickname (nickname : Str)

/-- An event with the peer that it gave a nickname. -/
structure Named (τ : Type) where
  event : NameEvent τ
  stored : Option (Str × Str)

namespace NamedCoordinator
variable {τ : Type} [CaseMapping]

def isNicknameSpoofed (peerId nickname : Str) (c : NamedCoordinator τ) : Bool :=
  nickname = [] ∨ strip nickname = [] ∨ (c.nickname ≠ [] ∧ foldName nickname = foldName c.nickname) ∨
    ∃ e ∈ c.peerNicknames.entries, CaseMapping.lower e.1 ≠ foldName peerId ∧
      foldName e.2 = foldName nickname

/-- Store a nickname that passes the test. -/
def offerNickname (peer nickname : Str) (c : NamedCoordinator τ) :
    Option (Str × Str) × NamedCoordinator τ :=
  if c.isNicknameSpoofed peer nickname then (none, c)
  else (some (peer, nickname), { c with peerNicknames := c.peerNicknames.set peer nickname })

/-- The nickname in an announcement. -/
def hearPacket [TextDecoder] (cfg : MeshSettings) (packet : BitchatPacket) (c : NamedCoordinator τ) :
    Option (Str × Str) × NamedCoordinator τ :=
  let sender := hex packet.senderId
  if CaseMapping.lower sender = CaseMapping.lower cfg.localPeerIdHex then (none, c)
  else
    match packet.messageType with
    | .announce => c.offerNickname sender (strip (TextDecoder.decode packet.payload))
    | _ => (none, c)

omit [CaseMapping] in
/-- Another peer is reached at the address so far. -/
def Displaced (address peer owner : Str) (c : NamedCoordinator τ) : Prop :=
  c.mesh.addressToPeerId.get? address = some owner ∧ owner ≠ [] ∧ owner ≠ peer ∧
    c.mesh.peerAddresses.get? owner = some address

omit [CaseMapping] in
/-- The peer that the discovered one replaces at its address loses its nickname. -/
def displaceOwner (address peer : Str) (c : NamedCoordinator τ) : NamedCoordinator τ :=
  match c.mesh.addressToPeerId.get? address with
  | none => c
  | some owner =>
    if owner ≠ [] ∧ owner ≠ peer ∧ c.mesh.peerAddresses.get? owner = some address then
      { c with peerNicknames := c.peerNicknames.erase owner }
    else c

/-- The nickname of a discovered peer. -/
def discoverName (cfg : MeshSettings) (address peerId : Str) (name : Option Str)
    (c : NamedCoordinator τ) : Option (Str × Str) × NamedCoordinator τ :=
  let peer := CaseMapping.lower peerId
  if peer = [] ∨ peer = CaseMapping.lower cfg.localPeerIdHex then (none, c)
  else
    let c := c.displaceOwner address peer
    match name.filter (· ≠ []) with
    | none => (none, c)
    | some name => c.offerNickname peer name

variable [BaseTransport τ] [Primitives] [TextDecoder]

/-- What an event of the coordinator does to the nicknames. -/
def namesAfter (cfg : MeshSettings) (event : MeshEvent τ) (c : NamedCoordinator τ) :
    Option (Str × Str) × NamedCoordinator τ :=
  match event with
  | .discovered address peerId => c.discoverName cfg address peerId none
  | .run i _ _ =>
    match c.mesh.backgroundTasks[i]? with
    | some (.process packet _) => c.hearPacket cfg packet
    | _ => (none, c)
  | .resetSessionState => (none, { c with peerNicknames := .empty })
  | _ => (none, c)

def perform (cfg : MeshSettings) (fuel : Nat) (event : NameEvent τ) (c : NamedCoordinator τ) :
    Option (Option (Str × Str) × NamedCoordinator τ) :=
  let along (event : MeshEvent τ) (named : Option (Str × Str) × NamedCoordinator τ) :=
    (c.mesh.perform cfg fuel event).map fun performed =>
      (named.1, { named.2 with mesh := performed.2 })
  match event with
  | .mesh event => along event (c.namesAfter cfg event)
  | .discovered address peerId name =>
    along (.discovered address peerId) (c.discoverName cfg address peerId name)
  | .setNickname nickname => some (none, { c with nickname })

/-- An event that came to its end. -/
def Step (cfg : MeshSettings) (c : NamedCoordinator τ) (label : Named τ) (d : NamedCoordinator τ) : Prop :=
  ∃ fuel, c.perform cfg fuel label.event = some (label.stored, d)

end NamedCoordinator
end Bitchat.App
