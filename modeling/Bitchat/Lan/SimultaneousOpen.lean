import Bitchat.Data.Run
import Bitchat.Lan.EndEvents

/-! Two nodes that dial each other. Each has its dialed and its accepted end of the two TCP
connections, and each decides for itself which of them is a duplicate. -/
namespace Bitchat.Lan
open Protocol Str LANTransport

/-- A node with its peer id, its address, the port it listens on and the one it dials from. -/
structure Host where
  id : Bytes
  ip : Str
  port : Nat
  ephemeral : Nat

/-- What is on its way over a connection. -/
inductive Item where
  | packet (packet : BitchatPacket)
  | eof
deriving DecidableEq

/-- A connection has the name of the node that dials it. `dialing` and `arriving` say that its
connect or its accept is outstanding, and `wire c n` what node `n` sent on `c`. -/
structure TwoNodes where
  node : Bool → LANTransport
  dialing : Bool → Bool
  arriving : Bool → Bool
  wire : Bool → Bool → List Item

inductive LinkEvent where
  | establish (c : Bool)
  | accept (c : Bool)
  | send (n c : Bool) (packet : BitchatPacket)
  | read (n c : Bool)
  | close (n c : Bool)
  | finish (n c : Bool)
  | discover (n : Bool) (peers : InsertionMap Str LANDiscoveredPeer)

variable (hosts : Bool → Host)

/-- The address under which a node has the end it dialed, or the other one. -/
def endAddress (n dialed : Bool) : Str :=
  endpoint (hosts !n).ip (if dialed then (hosts !n).port else (hosts !n).ephemeral)

/-- A node's object for a connection. -/
def refAt (n c : Bool) : Ref := refOf (n == c)

namespace TwoNodes

def withNode (n : Bool) (t : LANTransport) (s : TwoNodes) : TwoNodes :=
  { s with node := Function.update s.node n t }

/-- The items that node `n` sent on `c`. -/
def withWire (c n : Bool) (items : List Item) (s : TwoNodes) : TwoNodes :=
  { s with wire := Function.update s.wire c (Function.update (s.wire c) n items) }

def post (c n : Bool) (item : Item) (s : TwoNodes) : TwoNodes := s.withWire c n (s.wire c n ++ [item])

/-- A node that closes its end sends no more. -/
def postEof (n c : Bool) (s : TwoNodes) : TwoNodes :=
  if ((s.node n).heap (refAt n c)).isConnected then s.post c n .eof else s

def establish (c : Bool) (s : TwoNodes) : TwoNodes :=
  { s.withNode c ((s.node c).connected (refAt c c)) with dialing := Function.update s.dialing c false }

/-- A full server closes the connection. -/
def refuse (c : Bool) (s : TwoNodes) : TwoNodes :=
  { s.post c (!c) .eof with arriving := Function.update s.arriving c false }

/-- The read loop of an open end finds that the other one is closed. -/
def readEof (n c : Bool) (rest : List Item) (s : TwoNodes) : TwoNodes :=
  ((s.postEof n c).withNode n ((s.node n).beginClose (refAt n c))).withWire c (!n) rest

def closeTask (n c : Bool) (s : TwoNodes) : TwoNodes :=
  (s.postEof n c).withNode n ((s.node n).runClose (refAt n c))

def finish (n c : Bool) (s : TwoNodes) : TwoNodes := s.withNode n ((s.node n).finishClose (refAt n c))

variable [CaseMapping]

def accept (c : Bool) (s : TwoNodes) : TwoNodes :=
  { s.withNode (!c) ((s.node !c).handleClient (endAddress hosts (!c) false)) with
    arriving := Function.update s.arriving c false }

def readPacket (n c : Bool) (packet : BitchatPacket) (rest : List Item) (s : TwoNodes) : TwoNodes :=
  (s.withNode n ((s.node n).readPacket (refAt n c) packet)).withWire c (!n) rest

inductive Step (s : TwoNodes) : LinkEvent → TwoNodes → Prop where
  | establish {c} : s.dialing c = true → Step s (.establish c) (s.establish c)
  | accept {c} : s.arriving c = true →
      ((s.node !c).server.connections.size : Int) < (s.node !c).server.maxConnections →
      Step s (.accept c) (s.accept hosts c)
  | refuse {c} : s.arriving c = true →
      (s.node !c).server.maxConnections ≤ (s.node !c).server.connections.size →
      Step s (.accept c) (s.refuse c)
  | send {n c packet} : (s.node n).isReady (refAt n c) = true →
      Step s (.send n c packet) (s.post c n (.packet packet))
  | packet {n c packet rest} : ((s.node n).heap (refAt n c)).isConnected = true →
      s.wire c (!n) = .packet packet :: rest → Step s (.read n c) (s.readPacket n c packet rest)
  | eof {n c rest} : ((s.node n).heap (refAt n c)).isConnected = true → s.wire c (!n) = .eof :: rest →
      Step s (.read n c) (s.readEof n c rest)
  | close {n c} : refAt n c ∈ (s.node n).closing → Step s (.close n c) (s.closeTask n c)
  | finish {n c} : refAt n c ∈ (s.node n).departing → Step s (.finish n c) (s.finish n c)
  | discover {n peers} :
      Step s (.discover n peers) (s.withNode n { s.node n with discoveredPeers := peers })

end TwoNodes

/-- A transport without a connection. -/
structure Fresh (host : Host) (t : LANTransport) : Prop where
  peerId : t.localPeerId = hex host.id
  room : 2 ≤ t.maxConnections
  serverRoom : 1 ≤ t.server.maxConnections
  served : t.server.connections = .empty
  connections : t.connections = .empty
  peerConnections : t.peerConnections = .empty
  heap : (t.heap 1).isConnected = false
  nextRef : t.nextRef = 0
  closing : t.closing = []
  departing : t.departing = []

/-- Both nodes have just called `connect_peer` with the other's address. -/
structure Start [CaseMapping] [Python.DigitTable] (s : TwoNodes) : Prop where
  dialed : ∀ n, ∃ t, Fresh (hosts n) t ∧
    t.connectPeer (endAddress hosts n true) = (.ok (.dial 0), s.node n)
  dialing : ∀ n, s.dialing n = true
  arriving : ∀ c, s.arriving c = true
  wire : ∀ c n, s.wire c n = []

/-- The nodes are on different hosts and have different ids. -/
structure Apart [CaseMapping] : Prop where
  lower : ∀ d, CaseMapping.lower (hex d) = hex d
  named : ∀ n, (hosts n).id ≠ []
  distinct : (hosts true).id ≠ (hosts false).id
  address : ∀ n, ':' ∉ (hosts n).ip
  remote : ∀ n, isLoopback (hosts n).ip = false
  ports : ∀ n, (hosts n).port ≠ (hosts n).ephemeral

/-- A node that handles an inbound connection while its own is in use knows whose it is, and
each sends its own packets. -/
def Informed [CaseMapping] (s : TwoNodes) : LinkEvent → Prop
  | .accept c => (s.node !c).isReady 0 = true →
      (s.node !c).getPeerKey (endAddress hosts (!c) false) = peerKeyOf (hex (hosts c).id)
  | .send n _ packet => packet.senderId = (hosts n).id
  | _ => True

/-- A step in which a node drops one of two connections: it handles an inbound connection while
its own is in use, or a packet comes over another connection than its sender is registered for. -/
def Decides [CaseMapping] (e : Taken TwoNodes LinkEvent) : Prop :=
  match e.label with
  | .accept c => (e.before.node !c).isReady 0 = true
  | .read n c => ∃ packet rest, e.before.wire c (!n) = .packet packet :: rest ∧
      (e.before.node n).Attached (refAt n c) ∧ (e.before.node n).rival (refAt n c) packet ≠ none
  | _ => False

/-- No connect, accept or close is outstanding, and all that was sent to an open end is read. -/
structure Quiescent (s : TwoNodes) : Prop where
  dialing : ∀ c, s.dialing c = false
  arriving : ∀ c, s.arriving c = false
  closing : ∀ n, (s.node n).closing = []
  departing : ∀ n, (s.node n).departing = []
  wire : ∀ n c, ((s.node n).heap (refAt n c)).isConnected = true → s.wire c (!n) = []

/-- The nodes keep one connection, the same one, and have closed the other. -/
def Agrees (s : TwoNodes) : Prop :=
  ∃ c, ∀ n, (s.node n).Attached (refAt n c) ∧
    ((s.node n).heap (refAt n !c)).isConnected = false ∧
    ∀ k, (s.node n).connections.get? k ≠ some (refAt n !c)

section Addresses
variable {hosts}

theorem hostOf_endpoint {ip : Str} (plain : ':' ∉ ip) (port : Nat) : hostOf (endpoint ip port) = ip := by
  unfold hostOf endpoint
  rw [List.takeWhile_append_of_pos]
  · simp
  · intro c member
    simp only [ne_eq, decide_not, Bool.not_eq_eq_eq_not, Bool.not_true, decide_eq_false_iff_not]
    rintro rfl
    exact plain member

theorem endpoint_injective {ip : Str} {p q : Nat} (same : endpoint ip p = endpoint ip q) : p = q := by
  have digits := (List.cons.inj (List.append_cancel_left same)).2
  rw [← Nat.ofDigitChars_ten_toDigits (n := p), digits, Nat.ofDigitChars_ten_toDigits]

variable (hosts) in
/-- The node with the lower peer id. -/
def low : Bool := decide (hex (hosts true).id < hex (hosts false).id)

variable [CaseMapping]

theorem Apart.keeps (apart : Apart hosts) {n : Bool} {t : LANTransport} (address : Str)
    (peerId : t.localPeerId = hex (hosts n).id) :
    t.shouldKeepOutbound (hex (hosts !n).id) address = (n == low hosts) := by
  have text {d : Bytes} (some' : d ≠ []) : hex d ≠ [] := fun none' =>
    some' (hex_injective (none'.trans rfl))
  have other : (hosts n).id ≠ (hosts !n).id := by
    cases n
    · exact Ne.symm apart.distinct
    · exact apart.distinct
  have distinct : hex (hosts n).id ≠ hex (hosts !n).id := fun same => other (hex_injective same)
  simp only [shouldKeepOutbound, peerId, apart.lower]
  rw [if_pos ⟨text (apart.named n), text (apart.named !n), distinct⟩]
  cases n with
  | true => simp [low]
  | false =>
    have either : hex (hosts false).id < hex (hosts true).id ↔ ¬ hex (hosts true).id < hex (hosts false).id :=
      ⟨fun less => List.lt_asymm less, fun notLess => by
        by_contra notLess'
        exact distinct (List.le_antisymm notLess notLess')⟩
    rw [Bool.not_false, decide_eq_decide.mpr either, decide_not, low]
    cases decide (hex (hosts true).id < hex (hosts false).id) <;> rfl

theorem Apart.endAddress (apart : Apart hosts) (n : Bool) :
    endAddress hosts n true ≠ endAddress hosts n false ∧
      isLoopback (hostOf (endAddress hosts n false)) = false ∧
      hostOf (endAddress hosts n true) = hostOf (endAddress hosts n false) := by
  refine ⟨fun same => apart.ports (!n) (endpoint_injective same), ?_, ?_⟩
  · rw [Lan.endAddress, hostOf_endpoint (apart.address !n)]
    exact apart.remote !n
  · rw [Lan.endAddress, Lan.endAddress, hostOf_endpoint (apart.address !n), hostOf_endpoint (apart.address !n)]

end Addresses

section Run
variable {hosts} [CaseMapping] {s t : TwoNodes} {stage : Bool → Bool → Stage}
  {history : List (Taken TwoNodes LinkEvent)}

def Closed (stage : Stage) : Prop := stage = .departing ∨ stage = .gone

/-- The connection that the node with the lower id dialed is never closed. The other one is
closed at both ends once a node has dropped its end. -/
structure Opening (hosts : Bool → Host) (history : List (Taken TwoNodes LinkEvent)) (s : TwoNodes)
    (stage : Bool → Bool → Stage) : Prop where
  view : ∀ n, View (hex (hosts n).id) (endAddress hosts n) (stage n) (s.node n)
  dialing : ∀ n, s.dialing n = true ↔ stage n true = .pending
  arriving : ∀ c, s.arriving c = true ↔ stage (!c) false = .pending
  own : ∀ c n packet, .packet packet ∈ s.wire c n → packet.senderId = (hosts n).id
  winner : ∀ n, stage n (n == low hosts) = .pending ∨ stage n (n == low hosts) = .attached
  quiet : ∀ n, .eof ∉ s.wire (low hosts) n
  eof : ∀ n, .eof ∈ s.wire (!low hosts) n → Closed (stage n (n == !low hosts))
  other : ∀ n, Closed (stage n (n == !low hosts)) →
    Closed (stage (!n) ((!n) == !low hosts)) ∨ .eof ∈ s.wire (!low hosts) n
  decided : (∃ e ∈ history, Decides e) ↔ ∃ n, stage n (n == !low hosts) = .doomed ∨
    Closed (stage n (n == !low hosts))

omit [CaseMapping] in
/-- The winner's and the loser's end are the two of a node. -/
theorem ends_ne (n : Bool) : (n == !low hosts) = !(n == low hosts) := by
  cases n <;> cases low hosts <;> rfl

theorem decided_snoc {e : Taken TwoNodes LinkEvent} :
    (∃ d ∈ history ++ [e], Decides d) ↔ (∃ d ∈ history, Decides d) ∨ Decides e := by
  simp [or_and_right, exists_or]

theorem views_update {n : Bool} (after : Bool → Stage) (node : Bool → LANTransport)
    (opening : Opening hosts history s stage) (others : ∀ m, m ≠ n → node m = s.node m)
    (here : View (hex (hosts n).id) (endAddress hosts n) after (node n)) (m : Bool) :
    View (hex (hosts m).id) (endAddress hosts m) (Function.update stage n after m) (node m) := by
  by_cases same : m = n
  · subst same
    rw [Function.update_self]
    exact here
  · rw [Function.update_of_ne same, others m same]
    exact opening.view m

omit [CaseMapping] in
/-- An end that has begun does not get back to its beginning. -/
theorem update_pending {n e m d : Bool} {new : Stage} (alive : stage n e ≠ .pending)
    (later : new ≠ .pending) :
    Function.update stage n (Function.update (stage n) e new) m d = .pending ↔ stage m d = .pending := by
  by_cases node : m = n
  · subst node
    rw [Function.update_self]
    by_cases which : d = e
    · subst which
      rw [Function.update_self]
      exact iff_of_false later alive
    · rw [Function.update_of_ne which]
  · rw [Function.update_of_ne node]

/-- Ends that come into use change nothing else. -/
theorem Opening.open' {after : Bool → Bool → Stage} {e : Taken TwoNodes LinkEvent}
    (opening : Opening hosts history s stage)
    (grows : ∀ n d, after n d = stage n d ∨ (stage n d = .pending ∧ after n d = .attached))
    (view : ∀ n, View (hex (hosts n).id) (endAddress hosts n) (after n) (t.node n))
    (dialing : ∀ n, t.dialing n = true ↔ after n true = .pending)
    (arriving : ∀ c, t.arriving c = true ↔ after (!c) false = .pending)
    (own : ∀ c m packet, .packet packet ∈ t.wire c m → packet.senderId = (hosts m).id)
    (eof : ∀ c m, .eof ∈ t.wire c m ↔ .eof ∈ s.wire c m) (quiet : ¬ Decides e) :
    Opening hosts (history ++ [e]) t after := by
  have closed (n d : Bool) : Closed (after n d) ↔ Closed (stage n d) := by
    rcases grows n d with same | ⟨before, now⟩
    · rw [same]
    · simp [before, now, Closed]
  have doomed (n d : Bool) : after n d = .doomed ↔ stage n d = .doomed := by
    rcases grows n d with same | ⟨before, now⟩
    · rw [same]
    · simp [before, now]
  refine ⟨view, dialing, arriving, own, fun n => ?_, fun n => ?_, fun n => ?_, fun n => ?_, ?_⟩
  · rcases grows n (n == low hosts) with same | ⟨_, now⟩
    · rw [same]
      exact opening.winner n
    · exact Or.inr now
  · rw [eof]
    exact opening.quiet n
  · rw [eof, closed]
    exact opening.eof n
  · rw [eof, closed, closed]
    exact opening.other n
  · rw [decided_snoc]
    simp only [closed, doomed, quiet, or_false]
    exact opening.decided

/-- A node drops its end of the losing connection. -/
theorem Opening.doom {n : Bool} {after : Bool → Stage} {e : Taken TwoNodes LinkEvent}
    (opening : Opening hosts history s stage)
    (view : View (hex (hosts n).id) (endAddress hosts n) after (t.node n))
    (others : ∀ m, m ≠ n → t.node m = s.node m)
    (dialing : ∀ m, t.dialing m = true ↔ Function.update stage n after m true = .pending)
    (arriving : ∀ c, t.arriving c = true ↔ Function.update stage n after (!c) false = .pending)
    (own : ∀ c m packet, .packet packet ∈ t.wire c m → .packet packet ∈ s.wire c m)
    (eof : ∀ c m, .eof ∈ t.wire c m ↔ .eof ∈ s.wire c m)
    (keeps : after (n == low hosts) = .attached) (drops : after (n == !low hosts) = .doomed)
    (alive : ¬ Closed (stage n (n == !low hosts))) (decides : Decides e) :
    Opening hosts (history ++ [e]) t (Function.update stage n after) := by
  have notClosed : ¬ Closed (Function.update stage n after n (n == !low hosts)) := by
    rw [Function.update_self, drops]
    simp [Closed]
  refine ⟨views_update _ _ opening others view, dialing, arriving, fun c m packet sent => ?_, fun m => ?_,
    fun m => ?_, fun m sent => ?_, fun m closed => ?_, ?_⟩
  · exact opening.own c m packet (own c m packet sent)
  · by_cases same : m = n
    · subst same
      rw [Function.update_self]
      exact Or.inr keeps
    · rw [Function.update_of_ne same]
      exact opening.winner m
  · rw [eof]
    exact opening.quiet m
  · rw [eof] at sent
    have before := opening.eof m sent
    by_cases same : m = n
    · subst same
      exact absurd before alive
    · rw [Function.update_of_ne same]
      exact before
  · by_cases same : m = n
    · subst same
      exact absurd closed notClosed
    · rw [Function.update_of_ne same] at closed
      have there : (!m) = n := by cases m <;> cases n <;> simp at same ⊢
      right
      rw [eof]
      refine (opening.other m closed).resolve_left ?_
      rw [there]
      exact alive
  · refine iff_of_true (decided_snoc.mpr (Or.inr decides)) ⟨n, Or.inl ?_⟩
    rw [Function.update_self]
    exact drops

/-- A node's end of the losing connection gets closed, and the other node is told. -/
theorem Opening.close {n : Bool} {new : Stage} {e : Taken TwoNodes LinkEvent}
    (opening : Opening hosts history s stage)
    (view : View (hex (hosts n).id) (endAddress hosts n)
      (Function.update (stage n) (n == !low hosts) new) (t.node n))
    (closed : Closed new) (others : ∀ m, m ≠ n → t.node m = s.node m)
    (dialing : t.dialing = s.dialing) (arriving : t.arriving = s.arriving)
    (own : ∀ c m packet, .packet packet ∈ t.wire c m → .packet packet ∈ s.wire c m)
    (winners : ∀ m, t.wire (low hosts) m = s.wire (low hosts) m)
    (told : Closed (stage (!n) ((!n) == !low hosts)) ∨ .eof ∈ t.wire (!low hosts) n)
    (heard : .eof ∈ t.wire (!low hosts) (!n) → .eof ∈ s.wire (!low hosts) (!n))
    (alive : stage n (n == !low hosts) ≠ .pending)
    (decided : ∃ m, stage m (m == !low hosts) = .doomed ∨ Closed (stage m (m == !low hosts))) :
    Opening hosts (history ++ [e]) t
      (Function.update stage n (Function.update (stage n) (n == !low hosts) new)) := by
  set after := Function.update stage n (Function.update (stage n) (n == !low hosts) new) with after_eq
  have here : after n (n == !low hosts) = new := by simp [after_eq]
  have there {m : Bool} (other : m ≠ n) (d : Bool) : after m d = stage m d := by
    rw [after_eq, Function.update_of_ne other]
  have kept {m d : Bool} (other : m ≠ n ∨ d ≠ (n == !low hosts)) : after m d = stage m d := by
    by_cases same : m = n
    · subst same
      rw [after_eq, Function.update_self, Function.update_of_ne (other.resolve_left (not_not.mpr rfl))]
    · exact there same d
  have pending (m d : Bool) : after m d = .pending ↔ stage m d = .pending :=
    update_pending alive fun none' => by simp [none', Closed] at closed
  refine ⟨views_update _ _ opening others view, fun m => ?_, fun c => ?_, fun c m packet sent => ?_,
    fun m => ?_, fun m => ?_, fun m sent => ?_, fun m isClosed => ?_, ?_⟩
  · rw [dialing, pending]
    exact opening.dialing m
  · rw [arriving, pending]
    exact opening.arriving c
  · exact opening.own c m packet (own c m packet sent)
  · by_cases same : m = n
    · rw [same, kept (Or.inr (by rw [ends_ne]; cases (n == low hosts) <;> decide)), ← same]
      exact opening.winner m
    · rw [there same]
      exact opening.winner m
  · rw [winners]
    exact opening.quiet m
  · by_cases same : m = n
    · rw [same, here]
      exact closed
    · obtain rfl : m = !n := by cases m <;> cases n <;> simp at same ⊢
      rw [there same]
      exact opening.eof _ (heard sent)
  · by_cases same : m = n
    · subst same
      rw [there (by cases m <;> decide)]
      exact told
    · obtain rfl : n = !m := by cases m <;> cases n <;> simp at same ⊢
      rw [here]
      exact Or.inl closed
  · refine iff_of_true (decided_snoc.mpr (Or.inl (opening.decided.mpr decided))) ⟨n, Or.inr ?_⟩
    rw [here]
    exact closed

omit [CaseMapping] in
theorem wire_withWire {c n d m : Bool} {items : List Item} :
    (s.withWire c n items).wire d m = if d = c ∧ m = n then items else s.wire d m := by
  by_cases connection : d = c
  · subst connection
    by_cases node : m = n
    · subst node
      simp [TwoNodes.withWire]
    · simp [TwoNodes.withWire, node]
  · simp [TwoNodes.withWire, connection]

theorem getRemoteId_peerKeyOf (id address : Str) : getRemoteId (peerKeyOf id) address = CaseMapping.lower id := by
  simp [getRemoteId, peerKeyOf]

/-- The end of a connection that is read is in use or doomed. -/
theorem Opening.live (opening : Opening hosts history s stage) {n c : Bool}
    (connected : ((s.node n).heap (refAt n c)).isConnected = true) :
    stage n (n == c) = .attached ∨ stage n (n == c) = .doomed := by
  by_cases started : Started (stage n) (n == c)
  · exact ((opening.view n).shows' _ started).live.mp connected
  · obtain ⟨accepted, pending⟩ := not_or.mp started
    rw [Bool.not_eq_true] at accepted
    rw [accepted, not_not] at pending
    have absent := ((opening.view n).fresh pending).2.2.2.2.2
    rw [refAt, accepted] at connected
    exact absurd (absent.symm.trans connected) (by decide)

theorem Opening.establish (opening : Opening hosts history s stage) {c : Bool}
    (dialing : s.dialing c = true) :
    Opening hosts (history ++ [⟨s, .establish c, s.establish c⟩]) (s.establish c)
      (Function.update stage c (Function.update (stage c) true .attached)) := by
  have pending := (opening.dialing c).mp dialing
  have view := (opening.view c).connected pending
  apply opening.open'
  · intro n d
    by_cases which : n = c
    · subst which
      rw [Function.update_self]
      by_cases dialed : d = true
      · subst dialed
        exact Or.inr ⟨pending, Function.update_self ..⟩
      · rw [Function.update_of_ne dialed]
        exact Or.inl rfl
    · rw [Function.update_of_ne which]
      exact Or.inl rfl
  · apply views_update _ _ opening
    · exact fun m other => Function.update_of_ne other ..
    · simpa [TwoNodes.establish, TwoNodes.withNode, refAt, refOf] using view
  · intro n
    by_cases which : n = c
    · subst which
      simp [TwoNodes.establish]
    · rw [Function.update_of_ne which]
      simpa [TwoNodes.establish, Function.update_of_ne which] using opening.dialing n
  · intro d
    by_cases which : (!d) = c
    · subst which
      rw [Function.update_self, Function.update_of_ne (by decide)]
      exact opening.arriving d
    · rw [Function.update_of_ne which]
      exact opening.arriving d
  · exact opening.own
  · exact fun _ _ => Iff.rfl
  · exact id

theorem Opening.accept (apart : Apart hosts) (opening : Opening hosts history s stage) {c : Bool}
    (arriving : s.arriving c = true) (informed : Informed hosts s (.accept c)) :
    ∃ after, Opening hosts (history ++ [⟨s, .accept c, s.accept hosts c⟩]) (s.accept hosts c) after := by
  set t := s.accept hosts c with t_eq
  have pending := (opening.arriving c).mp arriving
  have view := opening.view !c
  obtain ⟨distinct, remote, host⟩ := apart.endAddress !c
  have view' := view.handleClient distinct remote host pending rfl
  generalize kept : (s.node !c).shouldKeepOutbound (getRemoteId
    ((s.node !c).getPeerKey (endAddress hosts (!c) false)) (endAddress hosts (!c) false))
    (endAddress hosts (!c) false) = keep at view'
  have ready : (s.node !c).isReady 0 = true ↔ stage (!c) true = .attached := by
    have notDoomed := (view.fresh pending).2.2.2.2.1
    exact (view.shows' true (Or.inl rfl)).isReady.trans (by simp [notDoomed])
  have others : ∀ m, m ≠ (!c) → t.node m = s.node m := fun m other => Function.update_of_ne other ..
  have self : t.node (!c) = (s.node !c).handleClient (endAddress hosts (!c) false) :=
    Function.update_self ..
  have arriving' {after : Bool → Stage} (now : after false ≠ .pending) (d : Bool) :
      t.arriving d = true ↔ Function.update stage (!c) after (!d) false = .pending := by
    by_cases which : d = c
    · subst which
      simp [t_eq, TwoNodes.accept, now]
    · have other : (!d) ≠ (!c) := by simpa using which
      rw [Function.update_of_ne other]
      simpa [t_eq, TwoNodes.accept, Function.update_of_ne which] using opening.arriving d
  have dialing' {after : Bool → Stage} (same : after true = .pending ↔ stage (!c) true = .pending) (n : Bool) :
      t.dialing n = true ↔ Function.update stage (!c) after n true = .pending := by
    by_cases which : n = !c
    · subst which
      rw [Function.update_self, same]
      exact opening.dialing !c
    · rw [Function.update_of_ne which]
      exact opening.dialing n
  by_cases inUse : stage (!c) true = .attached
  · -- the node knows whose connection it is, so the lower id decides
    have keep_eq : keep = ((!c) == low hosts) := by
      have key := informed (ready.mpr inUse)
      rw [← kept, key, getRemoteId_peerKeyOf, apart.lower]
      have keeps := apart.keeps (endAddress hosts (!c) false) view.peerId
      rwa [Bool.not_not] at keeps
    simp only [inUse, if_true, keep_eq] at view'
    refine ⟨_, opening.doom (self ▸ view') others (dialing' ?_) (arriving' ?_) (fun _ _ _ => id)
      (fun _ _ => Iff.rfl) ?_ ?_ ?_ (ready.mpr inUse)⟩
    · refine iff_of_false ?_ (by simp [inUse])
      split <;> decide
    · split <;> decide
    · exact if_pos rfl
    · rw [ends_ne]
      exact if_neg (by simp)
    · cases (!c) == !low hosts
      · simp [pending, Closed]
      · simp [inUse, Closed]
  · simp only [inUse, if_false] at view'
    refine ⟨_, opening.open' ?_ (views_update _ _ opening others (self ▸ view')) (dialing' ?_) (arriving' ?_)
      opening.own (fun _ _ => Iff.rfl) fun decides => inUse (ready.mp decides)⟩
    · intro n d
      by_cases which : n = !c
      · subst which
        rw [Function.update_self]
        cases d
        · exact Or.inr ⟨pending, rfl⟩
        · exact Or.inl rfl
      · rw [Function.update_of_ne which]
        exact Or.inl rfl
    · simp
    · simp

theorem Opening.read (apart : Apart hosts) (opening : Opening hosts history s stage) {n c : Bool}
    {packet : BitchatPacket} {rest : List Item}
    (connected : ((s.node n).heap (refAt n c)).isConnected = true)
    (head : s.wire c (!n) = .packet packet :: rest) :
    ∃ after, Opening hosts (history ++ [⟨s, .read n c, s.readPacket n c packet rest⟩])
      (s.readPacket n c packet rest) after := by
  set t := s.readPacket n c packet rest
  have live := opening.live connected
  have view := opening.view n
  have sender : packet.senderId = (hosts !n).id := opening.own c (!n) packet (by simp [head])
  have keeps : (s.node n).shouldKeepOutbound (hex packet.senderId) (endAddress hosts n (n == c)) =
      !(n == !low hosts) := by
    rw [sender, ends_ne, Bool.not_not]
    exact apart.keeps _ view.peerId
  have others : ∀ m, m ≠ n → t.node m = s.node m := fun m other => Function.update_of_ne other ..
  have self : t.node n = (s.node n).readPacket (refAt n c) packet := Function.update_self ..
  have wire (d m : Bool) : t.wire d m = if d = c ∧ m = (!n) then rest else s.wire d m := wire_withWire
  have sub {d m : Bool} {item : Item} (sent : item ∈ t.wire d m) : item ∈ s.wire d m := by
    rw [wire] at sent
    split at sent
    next which =>
      obtain ⟨rfl, rfl⟩ := which
      rw [head]
      exact List.mem_cons_of_mem _ sent
    next => exact sent
  have eof (d m : Bool) : .eof ∈ t.wire d m ↔ .eof ∈ s.wire d m := by
    refine ⟨sub, fun sent => ?_⟩
    rw [wire]
    split
    next which =>
      obtain ⟨rfl, rfl⟩ := which
      rw [head] at sent
      exact (List.mem_cons.mp sent).resolve_left (by simp)
    next => exact sent
  have decides : Decides ⟨s, .read n c, t⟩ ↔
      stage n (n == c) = .attached ∧ (s.node n).rival (refAt n c) packet ≠ none := by
    have shows' := view.shows' (n == c) (Or.inr fun pending => by simp [pending] at live)
    constructor
    · rintro ⟨packet', rest', head', attached, rival⟩
      obtain ⟨⟨⟩, rfl⟩ := List.cons.inj (head.symm.trans head')
      refine ⟨live.resolve_right fun doomed => ?_, rival⟩
      exact attached.staying (shows'.closing doomed)
    · rintro ⟨attached, rival⟩
      rw [attached] at shows'
      exact ⟨packet, rest, head, shows'.attached, rival⟩
  rcases view.readPacket (apart.endAddress n).1 live keeps with ⟨not', view'⟩ | ⟨both, all, view'⟩
  · refine ⟨stage, opening.open' (fun _ _ => Or.inl rfl) (fun m => ?_) opening.dialing opening.arriving
      (fun d m packet sent => opening.own d m packet (sub sent)) eof (fun d => not' (decides.mp d))⟩
    have views := views_update _ _ opening others (self ▸ view') m
    rwa [Function.update_eq_self] at views
  · refine ⟨_, opening.doom (self ▸ view') others (fun m => ?_) (fun d => ?_) (fun _ _ _ => sub) eof ?_ ?_ ?_
      (decides.mpr both)⟩
    · rw [update_pending (by simp [all]) (by decide)]
      exact opening.dialing m
    · rw [update_pending (by simp [all]) (by decide)]
      exact opening.arriving d
    · rw [Function.update_of_ne (by rw [ends_ne]; cases n == low hosts <;> decide), all]
    · exact Function.update_self ..
    · simp [all, Closed]

/-- The end of a connection whose stage shows that it is not the winner's. -/
theorem Opening.loser (opening : Opening hosts history s stage) {n c : Bool}
    (lost : stage n (n == c) ≠ .pending ∧ stage n (n == c) ≠ .attached) : c = !low hosts := by
  by_contra winner
  have same : c = low hosts := by cases c <;> cases h : low hosts <;> simp [h] at winner ⊢
  subst same
  rcases opening.winner n with pending | attached
  · exact lost.1 pending
  · exact lost.2 attached

theorem Opening.eof_read (opening : Opening hosts history s stage) {n c : Bool} {rest : List Item}
    (connected : ((s.node n).heap (refAt n c)).isConnected = true)
    (head : s.wire c (!n) = .eof :: rest) :
    ∃ after, Opening hosts (history ++ [⟨s, .read n c, s.readEof n c rest⟩]) (s.readEof n c rest) after := by
  have live := opening.live connected
  have received : .eof ∈ s.wire c (!n) := by simp [head]
  have loser : c = !low hosts := by
    by_contra winner
    have same : c = low hosts := by cases c <;> cases h : low hosts <;> simp [h] at winner ⊢
    exact opening.quiet (!n) (same ▸ received)
  subst loser
  have posted : s.postEof n (!low hosts) = s.post (!low hosts) n .eof := if_pos connected
  rw [TwoNodes.readEof, posted]
  set t := ((s.post (!low hosts) n .eof).withNode n
    ((s.node n).beginClose (refAt n !low hosts))).withWire (!low hosts) (!n) rest
  have wire (d m : Bool) : t.wire d m = if d = (!low hosts) ∧ m = (!n) then rest
      else if d = (!low hosts) ∧ m = n then s.wire d m ++ [.eof] else s.wire d m := by
    have posted' : (s.post (!low hosts) n .eof).wire d m =
        if d = (!low hosts) ∧ m = n then s.wire d m ++ [.eof] else s.wire d m := by
      rw [TwoNodes.post, wire_withWire]
      split
      next which => rw [which.1, which.2]
      next => rfl
    rw [← posted', wire_withWire]
    rfl
  have closed := opening.eof (!n) received
  have self : t.node n = (s.node n).beginClose (refAt n !low hosts) := Function.update_self ..
  refine ⟨_, opening.close (self ▸ (opening.view n).beginClose live) (Or.inl rfl)
    (fun m other => Function.update_of_ne other ..) rfl rfl (fun d m packet sent => ?_) (fun m => ?_)
    (Or.inl closed) (fun _ => received) ?_ ⟨!n, Or.inr closed⟩⟩
  · rw [wire] at sent
    split at sent
    next which =>
      obtain ⟨rfl, rfl⟩ := which
      rw [head]
      exact List.mem_cons_of_mem _ sent
    next =>
      split at sent
      · simpa using sent
      · exact sent
  · simp [wire]
  · rcases live with attached | doomed
    · simp [attached]
    · simp [doomed]

theorem Opening.started (opening : Opening hosts history s stage) {n c : Bool}
    (task : refAt n c ∈ (s.node n).closing ∨ refAt n c ∈ (s.node n).departing) :
    Started (stage n) (n == c) := by
  by_contra absent
  obtain ⟨accepted, pending⟩ := not_or.mp absent
  rw [Bool.not_eq_true] at accepted
  rw [accepted, not_not] at pending
  obtain ⟨_, _, closing, departing, _⟩ := (opening.view n).fresh pending
  rw [refAt, accepted] at task
  exact task.elim closing departing

theorem Opening.close_task (opening : Opening hosts history s stage) {n c : Bool}
    (task : refAt n c ∈ (s.node n).closing) :
    ∃ after, Opening hosts (history ++ [⟨s, .close n c, s.closeTask n c⟩]) (s.closeTask n c) after := by
  have started := opening.started (Or.inl task)
  have shows' := (opening.view n).shows' _ started
  rcases (opening.view n).runClose started task with ⟨doomed, view⟩ | ⟨closed, view⟩
  · obtain rfl := opening.loser (n := n) (c := c) (by simp [doomed])
    have connected := shows'.live.mpr (Or.inr doomed)
    rw [TwoNodes.closeTask, show s.postEof n (!low hosts) = s.post (!low hosts) n .eof from if_pos connected]
    set t := (s.post (!low hosts) n .eof).withNode n ((s.node n).runClose (refAt n !low hosts))
    have wire (d m : Bool) : t.wire d m = if d = (!low hosts) ∧ m = n then
        s.wire (!low hosts) n ++ [.eof] else s.wire d m := wire_withWire
    have self : t.node n = (s.node n).runClose (refAt n !low hosts) := Function.update_self ..
    refine ⟨_, opening.close (self ▸ view) (Or.inl rfl) (fun m other => Function.update_of_ne other ..)
      rfl rfl (fun d m packet sent => ?_) (fun m => ?_) (Or.inr ?_) (fun sent => ?_) (by simp [doomed])
      ⟨n, Or.inl doomed⟩⟩
    · rw [wire] at sent
      split at sent
      next which =>
        rw [which.1, which.2]
        simpa using sent
      next => exact sent
    · simp [wire]
    · simp [wire]
    · simpa [wire] using sent
  · have idle : ¬ ((s.node n).heap (refAt n c)).isConnected = true := by
      rw [refAt, shows'.live]
      rcases closed with h | h <;> simp [h]
    rw [TwoNodes.closeTask, show s.postEof n c = s from if_neg idle]
    set t := s.withNode n ((s.node n).runClose (refAt n c))
    have self : t.node n = (s.node n).runClose (refAt n c) := Function.update_self ..
    refine ⟨stage, opening.open' (fun _ _ => Or.inl rfl) (fun m => ?_) opening.dialing opening.arriving
      opening.own (fun _ _ => Iff.rfl) id⟩
    have views := views_update _ t.node opening (fun m other => Function.update_of_ne other ..)
      (self ▸ view) m
    rwa [Function.update_eq_self] at views

theorem Opening.finish (apart : Apart hosts) (opening : Opening hosts history s stage) {n c : Bool}
    (departing : refAt n c ∈ (s.node n).departing) :
    ∃ after, Opening hosts (history ++ [⟨s, .finish n c, s.finish n c⟩]) (s.finish n c) after := by
  set t := s.finish n c
  have started := opening.started (Or.inr departing)
  have which := ((opening.view n).shows' _ started).departing.mp departing
  obtain rfl := opening.loser (n := n) (c := c) (by simp [which])
  have view := (opening.view n).finishClose (apart.endAddress n).1 which
  have self : t.node n = (s.node n).finishClose (refAt n !low hosts) := Function.update_self ..
  refine ⟨_, opening.close (self ▸ view) (Or.inr rfl) (fun m other => Function.update_of_ne other ..)
    rfl rfl (fun _ _ _ => id) (fun _ => rfl) (opening.other n (Or.inl which)) id (by simp [which])
    ⟨n, Or.inr (Or.inl which)⟩⟩

/-- One step of the two nodes. -/
theorem Opening.step {event : LinkEvent} (apart : Apart hosts) (opening : Opening hosts history s stage)
    (step : TwoNodes.Step hosts s event t) (informed : Informed hosts s event) :
    ∃ after, Opening hosts (history ++ [⟨s, event, t⟩]) t after := by
  cases step with
  | establish dialing => exact ⟨_, opening.establish dialing⟩
  | accept arriving _ => exact opening.accept apart arriving informed
  | @refuse c arriving full =>
    have view := opening.view !c
    have empty := (view.fresh ((opening.arriving c).mp arriving)).2.1
    have room := view.serverRoom
    rw [empty] at full
    simp only [Nat.cast_zero] at full
    omega
  | @send n c packet ready =>
    refine ⟨stage, opening.open' (fun _ _ => Or.inl rfl) opening.view opening.dialing opening.arriving
      (fun d m p sent => ?_) (fun d m => ?_) id⟩
    · rw [TwoNodes.post, wire_withWire] at sent
      split at sent
      next which =>
        rcases List.mem_append.mp sent with before | new
        · rw [which.2]
          exact opening.own c n p before
        · obtain ⟨⟩ := List.mem_singleton.mp new
          rw [which.2]
          exact informed
      next => exact opening.own d m p sent
    · rw [TwoNodes.post, wire_withWire]
      split
      next which =>
        rw [which.1, which.2]
        simp
      next => rfl
  | packet connected head => exact opening.read apart connected head
  | eof connected head => exact opening.eof_read connected head
  | close task => exact opening.close_task task
  | finish departing => exact opening.finish apart departing
  | @discover n peers =>
    refine ⟨stage, opening.open' (fun _ _ => Or.inl rfl) (fun m => ?_) opening.dialing opening.arriving
      opening.own (fun _ _ => Iff.rfl) id⟩
    have views := views_update (stage n)
      (s.withNode n { s.node n with discoveredPeers := peers }).node opening
      (fun m other => Function.update_of_ne other ..) ?_ m
    · rwa [Function.update_eq_self] at views
    · have self : (s.withNode n { s.node n with discoveredPeers := peers }).node n =
          { s.node n with discoveredPeers := peers } := Function.update_self ..
      rw [self]
      exact (opening.view n).untouched _ peers

omit [CaseMapping] in
/-- A node that dials has the new connection, and no other, in its tables. -/
theorem view_dial {n : Bool} {before : LANTransport} (fresh : Fresh (hosts n) before) (key : Str)
    (state : TransportState) : View (hex (hosts n).id) (endAddress hosts n) (fun _ => .pending)
      ({ before with state := state }.dial (endAddress hosts n true) key) := by
  obtain ⟨peerId, room, serverRoom, served, connections, peers, heap, nextRef, closing, departing⟩ := fresh
  have object : ({ before with state := state }.dial (endAddress hosts n true) key).heap 0 =
      { peerAddress := endAddress hosts n true, wired := true } := by
    simp [dial, enter, nextRef]
  have started {e : Bool} (exists' : Started (fun _ => Stage.pending) e) : e = true :=
    exists'.resolve_right fun later => later rfl
  have entry (k : Str) (r : Ref) :
      ({ before with state := state }.dial (endAddress hosts n true) key).connections.get? k =
      some r ↔ k = endAddress hosts n true ∧ r = 0 := by
    simp [dial, enter, nextRef, connections, eq_comm]
  have listed (k : Str) (r : Ref) :
      ({ before with state := state }.dial (endAddress hosts n true) key).peerConnections.get? k =
      some r ↔ k = key ∧ r = 0 := by
    simp [dial, enter, nextRef, peers, eq_comm]
  refine ⟨peerId, room, serverRoom, fun e exists' => ?_, fun e exists' => ?_, fun k r found => ?_,
    fun k r found => ?_, fun _ => ?_⟩
  · obtain rfl := started exists'
    have none' : (0 : Ref) ∉ before.closing ∧ 0 ∉ before.departing := by simp [closing, departing]
    rw [show refOf true = 0 from rfl]
    constructor
    · simp [object]
    · simp [object]
    · simp [object]
    · simp [object, entry]
    · simp
    · simp
    · simp
    · exact fun _ => none'.1
    · exact iff_of_false none'.2 (by decide)
  · obtain rfl := started exists'
    rw [show refOf true = 0 from rfl, object]
    exact ⟨rfl, rfl⟩
  · obtain ⟨rfl, rfl⟩ := (entry k r).mp found
    exact ⟨true, Or.inl rfl, rfl, rfl⟩
  · obtain ⟨rfl, rfl⟩ := (listed k r).mp found
    exact ⟨true, Or.inl rfl, rfl⟩
  · refine ⟨by simp [dial, enter, nextRef], ?_, by simp [dial, enter, closing], by simp [dial, enter, departing],
      by simp, ?_⟩
    · change before.server.connections.size = 0
      rw [served]
      rfl
    · simpa [dial, enter, nextRef] using heap

variable [Python.DigitTable]

theorem view_dialed {n : Bool} {before after : LANTransport} (fresh : Fresh (hosts n) before)
    (dials : before.connectPeer (endAddress hosts n true) = (.ok (.dial 0), after)) :
    View (hex (hosts n).id) (endAddress hosts n) (fun _ => .pending) after := by
  unfold connectPeer at dials
  split at dials
  · cases dials
  · split at dials
    · cases dials
    · split at dials
      · cases dials
      · simp only at dials
        split at dials
        · cases dials
        · split at dials
          · cases dials
          · obtain ⟨-, rfl⟩ := Prod.mk.inj dials
            exact view_dial fresh _ _

theorem Start.opening (start : Start hosts s) : Opening hosts [] s fun _ _ => .pending := by
  refine ⟨fun n => ?_, fun n => ?_, fun c => ?_, ?_, fun _ => Or.inl rfl, ?_, ?_, ?_, ?_⟩
  · obtain ⟨before, fresh, dials⟩ := start.dialed n
    exact view_dialed fresh dials
  · simp [start.dialing]
  · simp [start.arriving]
  · simp [start.wire]
  · simp [start.wire]
  · simp [start.wire]
  · simp [Closed]
  · simp [Closed]

theorem Opening.run {start : TwoNodes} (apart : Apart hosts) (start' : Start hosts start)
    (run : Run (TwoNodes.Step hosts) start history s)
    (informed : ∀ e ∈ history, Informed hosts e.before e.label) : ∃ stage, Opening hosts history s stage := by
  induction run with
  | nil => exact ⟨_, start'.opening⟩
  | @snoc history s event t _ step ih =>
    obtain ⟨stage, opening⟩ := ih fun e member => informed e (List.mem_append_left _ member)
    exact opening.step apart step (informed ⟨s, event, t⟩ (List.mem_append_right _ List.mem_cons_self))

omit [Python.DigitTable] in
/-- When nothing is outstanding, every end of a connection is in use or over. -/
theorem Opening.settled (opening : Opening hosts history s stage) (quiescent : Quiescent s) (n c : Bool) :
    (stage n (n == c) = .attached ∧ (s.node n).Attached (refAt n c)) ∨
    (stage n (n == c) = .gone ∧ ((s.node n).heap (refAt n c)).isConnected = false ∧
      ∀ k, (s.node n).connections.get? k ≠ some (refAt n c)) := by
  have begun : stage n (n == c) ≠ .pending := by
    intro pending
    cases e : n == c with
    | true =>
      rw [e] at pending
      exact absurd ((opening.dialing n).mpr pending) (by simp [quiescent.dialing])
    | false =>
      rw [e] at pending
      have arriving := (opening.arriving (!n)).mpr (by rwa [Bool.not_not])
      exact absurd arriving (by simp [quiescent.arriving])
  have shows' := (opening.view n).shows' (n == c) (Or.inr begun)
  cases which : stage n (n == c) with
  | pending => exact absurd which begun
  | attached =>
    rw [which] at shows'
    exact Or.inl ⟨rfl, shows'.attached⟩
  | doomed =>
    have task := shows'.closing which
    rw [quiescent.closing] at task
    cases task
  | departing =>
    have callback := shows'.departing.mpr which
    rw [quiescent.departing] at callback
    cases callback
  | gone =>
    refine Or.inr ⟨rfl, ?_, shows'.unregistered (Or.inr which)⟩
    rw [Bool.eq_false_iff, ne_eq]
    exact fun connected => absurd (shows'.live.mp connected) (by simp [which])

/-- In every run of informed steps, once nothing is outstanding, the connection that the node with
the lower id dialed is in use at both ends, and it is the only one exactly when a node has decided. -/
theorem simultaneous_open {start : TwoNodes} (apart : Apart hosts) (start' : Start hosts start)
    (run : Run (TwoNodes.Step hosts) start history s)
    (informed : ∀ e ∈ history, Informed hosts e.before e.label) (quiescent : Quiescent s) :
    (∀ n, (s.node n).Attached (refAt n (low hosts))) ∧
      (Agrees s ↔ ∃ e ∈ history, Decides e) := by
  obtain ⟨stage, opening⟩ := Opening.run apart start' run informed
  have winner (n : Bool) : (s.node n).Attached (refAt n (low hosts)) := by
    rcases opening.settled quiescent n (low hosts) with ⟨_, attached⟩ | ⟨gone, _⟩
    · exact attached
    · rcases opening.winner n with other | other
      · exact absurd (gone.symm.trans other) (by decide)
      · exact absurd (gone.symm.trans other) (by decide)
  refine ⟨winner, ?_⟩
  constructor
  · rintro ⟨c, kept⟩
    have same : c = low hosts := by
      by_contra other
      have unused := (kept true).2.1
      rw [show (!c) = low hosts by cases c <;> cases h : low hosts <;> simp [h] at other ⊢] at unused
      have ready := (winner true).ready
      rw [LANTransport.isReady, LANConnection.isReady, unused, Bool.and_false] at ready
      cases ready
    subst same
    rw [opening.decided]
    refine ⟨true, Or.inr (Or.inr ?_)⟩
    rcases opening.settled quiescent true (!low hosts) with ⟨_, attached⟩ | ⟨gone, _⟩
    · exact absurd attached.registered ((kept true).2.2 _)
    · exact gone
  · intro decides
    obtain ⟨n, which⟩ := opening.decided.mp decides
    have unused (m : Bool) (closed : stage m (m == !low hosts) ≠ .attached) :
        stage m (m == !low hosts) = .gone ∧ ((s.node m).heap (refAt m !low hosts)).isConnected = false ∧
          ∀ k, (s.node m).connections.get? k ≠ some (refAt m !low hosts) := by
      rcases opening.settled quiescent m (!low hosts) with ⟨attached, _⟩ | gone
      · exact absurd attached closed
      · exact gone
    have here := unused n (by rcases which with h | h | h <;> simp [h])
    have there : stage (!n) ((!n) == !low hosts) ≠ .attached := by
      intro attached
      rcases opening.other n (Or.inr here.1) with closed | told
      · simp [attached, Closed] at closed
      · -- the other end is still read, so nothing is left for it
        rcases opening.settled quiescent (!n) (!low hosts) with ⟨_, inUse⟩ | ⟨gone, _⟩
        · have connected : ((s.node !n).heap (refAt (!n) !low hosts)).isConnected = true := by
            have ready := inUse.ready
            rw [LANTransport.isReady, LANConnection.isReady, Bool.and_eq_true] at ready
            exact ready.2
          have read := quiescent.wire (!n) (!low hosts) connected
          rw [Bool.not_not] at read
          simp [read] at told
        · exact absurd (attached.symm.trans gone) (by decide)
    refine ⟨low hosts, fun m => ⟨winner m, ?_⟩⟩
    by_cases same : m = n
    · rw [same]
      exact here.2
    · obtain rfl : m = !n := by cases m <;> cases n <;> simp at same ⊢
      exact (unused _ there).2

end Run
end Bitchat.Lan

namespace Bitchat.Lan
open Protocol Str LANTransport
attribute [local instance] asciiCase Python.asciiDigits

/-- Two hosts whose ids are both above every address. -/
def strangers (n : Bool) : Host :=
  { id := List.replicate 8 (if n then 0xaa else 0xbb)
    ip := if n then "192.168.1.10".toList else "192.168.1.20".toList
    port := 41235
    ephemeral := 54321 }

/-- A node that has discovered these peers. -/
def listening (n : Bool) (peers : InsertionMap Str LANDiscoveredPeer) : LANTransport :=
  { localPeerId := hex (strangers n).id
    server := { boundPort := 41235 }
    localIp := (strangers n).ip
    localIps := [(strangers n).ip]
    discoveredPeers := peers }

/-- Both nodes dial. -/
def bothDialing (peers : Bool → InsertionMap Str LANDiscoveredPeer) : TwoNodes where
  node n := ((listening n (peers n)).connectPeer (endAddress strangers n true)).2
  dialing _ := true
  arriving _ := true
  wire _ _ := []

def unknown (_ : Bool) : InsertionMap Str LANDiscoveredPeer := .empty

/-- Each node has the other's beacon. -/
def known (n : Bool) : InsertionMap Str LANDiscoveredPeer :=
  InsertionMap.empty.set (endAddress strangers n true) ⟨(strangers !n).ip, hex (strangers !n).id⟩

theorem start_bothDialing (peers : Bool → InsertionMap Str LANDiscoveredPeer)
    (dials : ∀ n, ((listening n (peers n)).connectPeer (endAddress strangers n true)).1 = .ok (.dial 0)) :
    Start strangers (bothDialing peers) where
  dialed n := ⟨listening n (peers n),
    ⟨rfl, by simp [listening], by simp [listening], rfl, rfl, rfl, rfl, rfl, rfl, rfl⟩, Prod.ext (dials n) rfl⟩
  dialing _ := rfl
  arriving _ := rfl
  wire _ _ := rfl

theorem strangers_apart : Apart strangers where
  lower := asciiCase_lower_hex
  named := by decide
  distinct := by decide
  address := by decide
  remote := by decide
  ports := by decide

/-- With the other's beacon at both nodes, the handling of the inbound connections decides. -/
theorem simultaneous_open_known : ∃ history s, Run (TwoNodes.Step strangers) (bothDialing known) history s ∧
    Agrees s := by
  have run : Run (TwoNodes.Step strangers) (bothDialing known) _ _ :=
    (((((((Run.nil.snoc (.establish (c := true) (by decide +kernel))).snoc
      (.establish (c := false) (by decide +kernel))).snoc
      (.accept (c := true) (by decide +kernel) (by decide +kernel))).snoc
      (.accept (c := false) (by decide +kernel) (by decide +kernel))).snoc
      (.close (n := true) (c := false) (by decide +kernel))).snoc
      (.close (n := false) (c := false) (by decide +kernel))).snoc
      (.finish (n := true) (c := false) (by decide +kernel))).snoc
      (.finish (n := false) (c := false) (by decide +kernel))
  refine ⟨_, _, run, (simultaneous_open strangers_apart (start_bothDialing known (by decide +kernel)) run ?_
    ⟨by decide +kernel, by decide +kernel, by decide +kernel, by decide +kernel, by decide +kernel⟩).2.mpr ?_⟩
  · simp only [List.nil_append, List.cons_append, List.forall_mem_cons, List.not_mem_nil, false_imp_iff,
      implies_true, and_true]
    refine ⟨trivial, trivial, fun _ => ?_, fun _ => ?_, trivial, trivial, trivial, trivial⟩
    · decide +kernel
    · decide +kernel
  · refine ⟨_, List.mem_append_left _ (List.mem_append_left _ (List.mem_append_left _
      (List.mem_append_left _ (List.mem_append_right _ List.mem_cons_self)))), ?_⟩
    change LANTransport.isReady 0 _ = true
    decide +kernel

/-- Nodes that do not know each other compare their ids with addresses: both drop the connection
that they dialed, and none is left. -/
theorem not_every_open_agrees : Apart strangers ∧ Start strangers (bothDialing unknown) ∧
    ∃ history s, Run (TwoNodes.Step strangers) (bothDialing unknown) history s ∧ Quiescent s ∧
      ∀ n c, ((s.node n).heap (refAt n c)).isConnected = false := by
  have heard {items : List Item} (only : items = [.eof]) : items = .eof :: [] := only
  have run : Run (TwoNodes.Step strangers) (bothDialing unknown) _ _ :=
    (((((((((((Run.nil.snoc (.establish (c := true) (by decide +kernel))).snoc
      (.establish (c := false) (by decide +kernel))).snoc
      (.accept (c := true) (by decide +kernel) (by decide +kernel))).snoc
      (.accept (c := false) (by decide +kernel) (by decide +kernel))).snoc
      (.close (n := true) (c := true) (by decide +kernel))).snoc
      (.close (n := false) (c := false) (by decide +kernel))).snoc
      (.finish (n := true) (c := true) (by decide +kernel))).snoc
      (.finish (n := false) (c := false) (by decide +kernel))).snoc
      (.eof (n := false) (c := true) (by decide +kernel) (heard (by decide +kernel)))).snoc
      (.eof (n := true) (c := false) (by decide +kernel) (heard (by decide +kernel)))).snoc
      (.finish (n := false) (c := true) (by decide +kernel))).snoc
      (.finish (n := true) (c := false) (by decide +kernel))
  refine ⟨strangers_apart, start_bothDialing unknown (by decide +kernel), _, _, run,
    ⟨by decide +kernel, by decide +kernel, by decide +kernel, by decide +kernel, by decide +kernel⟩,
    by decide +kernel⟩

end Bitchat.Lan
