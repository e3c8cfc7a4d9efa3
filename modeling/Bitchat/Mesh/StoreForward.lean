import Bitchat.Data.InsertionMap
import Bitchat.Data.Loop
import Bitchat.Data.Run
import Bitchat.Data.Text
import Bitchat.Protocol.Packet

/-! The store-and-forward queue: bounded buffers of packets for peers that are
not connected. The two eviction loops of `enqueue` are run with fuel; a call
that gets no result from any fuel is a call that never returns. -/
namespace Bitchat.Mesh
open Protocol Str

/-- A target given as text or as raw bytes. -/
inductive PeerName where
  | str (name : Str)
  | bytes (id : Bytes)
deriving DecidableEq

def normalizePeerId [CaseMapping] : PeerName → Str
  | .bytes id => CaseMapping.lower (hex id)
  | .str name => CaseMapping.lower (strip name)

structure QueuedPacket where
  packet : BitchatPacket
  enqueuedAt : Seconds
  byteSize : Nat
deriving DecidableEq

/-- The constructor's limits, each at least one. -/
structure Limits where
  maxTotalPackets : Nat := 100
  maxPerPeer : Nat := 20
  maxTotalBytes : Nat := 256 * 1024
  packetTtlSeconds : Seconds := 300
  maxTotalPackets_pos : 1 ≤ maxTotalPackets := by decide
  maxPerPeer_pos : 1 ≤ maxPerPeer := by decide
  maxTotalBytes_pos : 1 ≤ maxTotalBytes := by decide

/-- The limits of a constructor without arguments. -/
def Limits.standard : Limits := {}

structure StoreAndForwardQueue where
  queues : InsertionMap Str (List QueuedPacket)
  currentTotalPackets : Int
  currentTotalBytes : Int
deriving DecidableEq

namespace StoreAndForwardQueue

def new : StoreAndForwardQueue := ⟨.empty, 0, 0⟩

/-- The counters after packets left the buffers. -/
def uncount (s : StoreAndForwardQueue) (gone : List QueuedPacket) : StoreAndForwardQueue :=
  { s with
    currentTotalPackets := s.currentTotalPackets - gone.length
    currentTotalBytes := s.currentTotalBytes - (gone.map QueuedPacket.byteSize).sum }

/-- What the source does after packets were popped from the left of a deque that stays
in the dictionary unless it is empty now. -/
def keepOrDelete (s : StoreAndForwardQueue) (peer : Str) (rest : List QueuedPacket) :
    StoreAndForwardQueue :=
  { s with queues := if rest.isEmpty then s.queues.erase peer else s.queues.set peer rest }

def expired (lim : Limits) (now : Seconds) (item : QueuedPacket) : Bool :=
  lim.packetTtlSeconds < now - item.enqueuedAt

def prunePeer (lim : Limits) (now : Seconds) (s : StoreAndForwardQueue) (peer : Str) :
    StoreAndForwardQueue :=
  match s.queues.get? peer with
  | none => s
  | some queue => (s.uncount (queue.takeWhile (expired lim now))).keepOrDelete peer
      (queue.dropWhile (expired lim now))

def pruneExpired (lim : Limits) (now : Seconds) (s : StoreAndForwardQueue) :
    StoreAndForwardQueue :=
  s.queues.keys.foldl (prunePeer lim now) s

/-- The number `prune_expired` returns. -/
def prunedCount (lim : Limits) (now : Seconds) (s : StoreAndForwardQueue) : Int :=
  s.currentTotalPackets - (s.pruneExpired lim now).currentTotalPackets

/-- One round of the scan: `none` stands for the initial time of infinity. -/
def olderHead (oldest : Option (Str × Seconds)) (entry : Str × List QueuedPacket) :
    Option (Str × Seconds) :=
  match entry.2, oldest with
  | [], _ => oldest
  | first :: _, none => some (entry.1, first.enqueuedAt)
  | first :: _, some (_, time) =>
    if first.enqueuedAt < time then some (entry.1, first.enqueuedAt) else oldest

def oldestPeer (entries : List (Str × List QueuedPacket)) : Option (Str × Seconds) :=
  entries.foldl olderHead none

def evictOldest (s : StoreAndForwardQueue) : StoreAndForwardQueue :=
  match oldestPeer s.queues.entries with
  | none => s
  | some (peer, _) =>
    match s.queues.get? peer with
    | some (evicted :: rest) => (s.uncount [evicted]).keepOrDelete peer rest
    | _ => s

/-- `setdefault(peer_key, deque())`. -/
def setDefault (s : StoreAndForwardQueue) (peer : Str) : StoreAndForwardQueue :=
  if s.queues.contains peer then s else { s with queues := s.queues.set peer [] }

/-- The per-peer limit: drop this peer's oldest packet if its queue is full. The
emptied queue of a limit of one stays in the dictionary. -/
def evictFromPeer (lim : Limits) (s : StoreAndForwardQueue) (peer : Str) :
    StoreAndForwardQueue :=
  match s.queues.get? peer with
  | some (evicted :: rest) =>
    if lim.maxPerPeer ≤ rest.length + 1 then
      { s.uncount [evicted] with queues := s.queues.set peer rest }
    else s
  | _ => s

/-- `peer_queue.append`. The local name and the dictionary hold the same deque until an
eviction deletes the key; afterwards the append reaches no stored queue. -/
def append (s : StoreAndForwardQueue) (peer : Str) (queued : QueuedPacket) :
    StoreAndForwardQueue :=
  { queues := match s.queues.get? peer with
      | some queue => s.queues.set peer (queue ++ [queued])
      | none => s.queues
    currentTotalPackets := s.currentTotalPackets + 1
    currentTotalBytes := s.currentTotalBytes + queued.byteSize }

def tooManyPackets (lim : Limits) (s : StoreAndForwardQueue) : Bool :=
  lim.maxTotalPackets ≤ s.currentTotalPackets

def overBudget (lim : Limits) (size : Nat) (s : StoreAndForwardQueue) : Bool :=
  lim.maxTotalBytes < s.currentTotalBytes + size

def tooManyBytes (lim : Limits) (size : Nat) (s : StoreAndForwardQueue) : Bool :=
  s.overBudget lim size && 0 < s.currentTotalPackets

def packetSize (packet : BitchatPacket) : Nat := packet.payload.length + 32

/-- The state in which the first eviction loop of `enqueue` is entered. -/
def beforeEviction [CaseMapping] (lim : Limits) (target : PeerName) (now : Seconds)
    (s : StoreAndForwardQueue) : StoreAndForwardQueue :=
  ((s.pruneExpired lim now).setDefault (normalizePeerId target)).evictFromPeer lim
    (normalizePeerId target)

def enqueue [CaseMapping] (lim : Limits) (fuel : Nat) (target : PeerName) (packet : BitchatPacket)
    (now : Seconds) (s : StoreAndForwardQueue) : Option (Bool × StoreAndForwardQueue) :=
  if lim.maxTotalBytes < packetSize packet then some (false, s.pruneExpired lim now) else
    match Loop.run (tooManyPackets lim) evictOldest fuel (s.beforeEviction lim target now) with
    | none => none
    | some s =>
      match Loop.run (tooManyBytes lim (packetSize packet)) evictOldest fuel s with
      | none => none
      | some s =>
        if s.overBudget lim (packetSize packet) then some (false, s)
        else some (true, s.append (normalizePeerId target) ⟨packet, now, packetSize packet⟩)

def dequeueForPeer [CaseMapping] (lim : Limits) (target : PeerName) (now : Seconds)
    (s : StoreAndForwardQueue) : List BitchatPacket × StoreAndForwardQueue :=
  let peerKey := normalizePeerId target
  match s.queues.get? peerKey with
  | none => ([], s)
  | some queue =>
    ((queue.filter fun item => !expired lim now item).map QueuedPacket.packet,
      { s.uncount queue with queues := s.queues.erase peerKey })

def hasPending [CaseMapping] (s : StoreAndForwardQueue) (target : PeerName) : Bool :=
  match s.queues.get? (normalizePeerId target) with
  | some queue => !queue.isEmpty
  | none => false

def clear (_ : StoreAndForwardQueue) : StoreAndForwardQueue := new

/-- The calls that change the queue. -/
inductive Op where
  | enqueue (target : PeerName) (packet : BitchatPacket) (now : Seconds)
  | dequeueForPeer (target : PeerName) (now : Seconds)
  | pruneExpired (now : Seconds)
  | clear

/-- A call that returned. -/
inductive Step [CaseMapping] (lim : Limits) :
    StoreAndForwardQueue → Op → StoreAndForwardQueue → Prop where
  | enqueue {s t : StoreAndForwardQueue} {target packet now accepted} {fuel : Nat} :
      s.enqueue lim fuel target packet now = some (accepted, t) →
      Step lim s (.enqueue target packet now) t
  | dequeueForPeer (s target now) :
      Step lim s (.dequeueForPeer target now) (s.dequeueForPeer lim target now).2
  | pruneExpired (s now) : Step lim s (.pruneExpired now) (s.pruneExpired lim now)
  | clear (s) : Step lim s .clear s.clear

end StoreAndForwardQueue
end Bitchat.Mesh
