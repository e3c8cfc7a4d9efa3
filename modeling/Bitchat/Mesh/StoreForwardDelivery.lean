import Bitchat.Mesh.StoreForwardEvictions

/-! The history of every accepted packet. Calls are numbered in their order, and a packet goes by
the number of the call that accepted it, so that equal packets are told apart. -/
namespace Bitchat.Mesh.StoreAndForwardQueue
open Protocol Str

/-- A call with what it returned. -/
inductive Call where
  | enqueue (target : PeerName) (packet : BitchatPacket) (now : Seconds) (accepted : Bool)
  | dequeueForPeer (target : PeerName) (now : Seconds) (packets : List BitchatPacket)
  | pruneExpired (now : Seconds)
  | clear

def Call.op : Call → Op
  | .enqueue target packet now _ => .enqueue target packet now
  | .dequeueForPeer target now _ => .dequeueForPeer target now
  | .pruneExpired now => .pruneExpired now
  | .clear => .clear

/-- The time that the call reads. -/
def Call.now? : Call → Option Seconds
  | .enqueue _ _ now _ | .dequeueForPeer _ now _ | .pruneExpired now => some now
  | .clear => none

section Calls
variable [CaseMapping]

inductive Called (lim : Limits) : StoreAndForwardQueue → Call → StoreAndForwardQueue → Prop where
  | enqueue {s t : StoreAndForwardQueue} {target packet now accepted} {fuel : Nat} :
      s.enqueue lim fuel target packet now = some (accepted, t) →
      Called lim s (.enqueue target packet now accepted) t
  | dequeueForPeer {s t : StoreAndForwardQueue} {target now packets} :
      s.dequeueForPeer lim target now = (packets, t) →
      Called lim s (.dequeueForPeer target now packets) t
  | pruneExpired (s now) : Called lim s (.pruneExpired now) (s.pruneExpired lim now)
  | clear (s) : Called lim s .clear s.clear

/-- The call is a `dequeue_for_peer` of the peer. -/
def Call.Takes (peer : Str) (call : Call) : Prop :=
  ∃ target now packets, call = .dequeueForPeer target now packets ∧ normalizePeerId target = peer

/-- What the call accepts for the peer. -/
def Call.enters (peer : Str) : Call → List QueuedPacket
  | .enqueue target packet now true =>
    if normalizePeerId target = peer then [⟨packet, now, packetSize packet⟩] else []
  | _ => []

/-- Why the call takes a packet of the peer off its queue. -/
def Loses (lim : Limits) (s : StoreAndForwardQueue) (call : Call) (peer : Str) (item : QueuedPacket) :
    Prop :=
  match call with
  | .enqueue target packet now _ =>
    expired lim now item = true ∨ CapEvicts lim s target packet now peer item
  | .dequeueForPeer target _ _ => normalizePeerId target = peer
  | .pruneExpired now => expired lim now item = true
  | .clear => True

/-- The packet is the last one held for its target. -/
def LastHeld (target : PeerName) (packet : BitchatPacket) (now : Seconds) (s : StoreAndForwardQueue) :
    Prop :=
  (s.queueOf (normalizePeerId target)).getLast? = some ⟨packet, now, packetSize packet⟩ ∧
    s.hasPending target = true

/-- What the call accepts is last in its queue afterwards. -/
def Acknowledged (call : Call) (t : StoreAndForwardQueue) : Prop :=
  ∀ target packet now, call = .enqueue target packet now true → t.LastHeld target packet now

variable {lim : Limits} {s t u : StoreAndForwardQueue} {call : Call} {peer : Str} {item : QueuedPacket}
  {target : PeerName} {packet : BitchatPacket} {now : Seconds}

theorem Called.step (called : Called lim s call t) : Step lim s call.op t := by
  cases called with
  | enqueue returned => exact .enqueue returned
  | dequeueForPeer returned =>
    obtain rfl : (s.dequeueForPeer lim _ _).2 = t := congrArg Prod.snd returned
    exact .dequeueForPeer _ _ _
  | pruneExpired now => exact .pruneExpired _ _
  | clear => exact .clear _

omit [CaseMapping] in
theorem append_present (u : StoreAndForwardQueue) (key : Str) (item : QueuedPacket) :
    (u.append key item).queues.get? key ≠ none ↔ u.queues.get? key ≠ none := by
  unfold append
  cases found : u.queues.get? key with
  | none => simp [found]
  | some queue => simp

omit [CaseMapping] in
/-- An append reaches the queue of its peer if that is still in the dictionary. -/
theorem queueOf_append {key : Str} (present : u.queues.get? key ≠ none) :
    (u.append key item).queueOf peer = u.queueOf peer ++ (if key = peer then [item] else []) := by
  obtain ⟨queue, found⟩ := Option.ne_none_iff_exists'.mp present
  simp only [append, found, queueOf, InsertionMap.get?_set]
  by_cases same : peer = key
  · subst same
    simp [found]
  · simp [same, Ne.symm same]

/-- A call of `enqueue` accepts what is not too big. It is appended to a queue that is still there
exactly when the evictions spare that queue. -/
theorem enqueue_accepts {fuel : Nat} {accepted : Bool} (ok : Accounted lim s)
    (returned : s.enqueue lim fuel target packet now = some (accepted, t)) :
    (lim.maxTotalBytes < packetSize packet ∧ accepted = false ∧ t = s.pruneExpired lim now) ∨
    ∃ u, accepted = true ∧
      Relation.ReflTransGen (Evicts lim target (packetSize packet)) (s.pruned lim target now) u ∧
      t = u.append (normalizePeerId target) ⟨packet, now, packetSize packet⟩ ∧
      (u.queues.get? (normalizePeerId target) ≠ none ↔ KeepsTarget lim s (.enqueue target packet now)) := by
  rcases enqueue_appends ok returned with refused | ⟨v, rfl, appended, -, keeps⟩
  · exact Or.inl refused
  · rcases enqueue_evictions returned with ⟨-, refused, -⟩ | ⟨u, evictions, result⟩
    · cases refused
    · split at result
      · cases result
      · obtain ⟨-, rfl⟩ := Prod.mk.inj result
        refine Or.inr ⟨u, rfl, evictions, rfl, ?_⟩
        rw [← append_present u _ ⟨packet, now, packetSize packet⟩, appended, append_present]
        exact keeps

/-- What a call accepts is last in its queue exactly when the evictions spare that queue. -/
theorem acknowledged_iff (ok : Accounted lim s) (called : Called lim s call t) :
    Acknowledged call t ↔ KeepsTarget lim s call.op := by
  cases called with
  | @enqueue t target packet now accepted fuel returned =>
    rcases enqueue_accepts ok returned with ⟨big, rfl, -⟩ | ⟨u, rfl, -, rfl, keeps⟩
    · exact iff_of_true (fun _ _ _ same => by cases same) (Or.inl big)
    · rw [Call.op, ← keeps]
      constructor
      · intro acknowledged
        obtain ⟨-, pending⟩ := acknowledged target packet now rfl
        rw [← append_present u _ ⟨packet, now, packetSize packet⟩]
        intro none
        simp [hasPending, none] at pending
      · rintro present _ _ _ ⟨⟩
        have queue : (u.append (normalizePeerId target) ⟨packet, now, packetSize packet⟩).queueOf
            (normalizePeerId target) = _ := queueOf_append present
        rw [if_pos rfl] at queue
        refine ⟨by rw [queue, List.getLast?_concat], ?_⟩
        unfold hasPending
        unfold queueOf at queue
        split
        · next waiting found =>
          rw [found, Option.getD_some] at queue
          simp [queue]
        · next none => exact absurd none ((append_present _ _ _).mpr present)
  | dequeueForPeer | pruneExpired | clear =>
    exact iff_of_true (fun _ _ _ same => by cases same) trivial

theorem queueOf_pruned : (s.pruned lim target now).queueOf peer = (s.pruneExpired lim now).queueOf peer :=
  queueOf_setDefault

/-- What a call does to the queue of a peer: packets leave the front, each for its reason, and what
it accepts goes last. A dequeue takes the whole queue and returns what has not expired of it. -/
theorem called_queueOf (ok : Accounted lim s) (called : Called lim s call t)
    (keeps : KeepsTarget lim s call.op) (peer : Str) :
    ∃ gone rest, s.queueOf peer = gone ++ rest ∧ t.queueOf peer = rest ++ call.enters peer ∧
      (∀ item ∈ gone, s.Loses lim call peer item) ∧
      ∀ target now packets, call = .dequeueForPeer target now packets → normalizePeerId target = peer →
        rest = [] ∧ packets = (gone.filter fun item => !expired lim now item).map QueuedPacket.packet := by
  cases called with
  | @enqueue t target packet now accepted fuel returned =>
    have pruning : Drops (s.Loses lim (.enqueue target packet now accepted)) s (s.pruneExpired lim now) :=
      (drops_pruneExpired lim now s).mono fun _ _ => Or.inl
    rcases enqueue_accepts ok returned with ⟨-, rfl, rfl⟩ | ⟨u, rfl, evictions, rfl, spared⟩
    · obtain ⟨gone, before, reasons⟩ := pruning peer
      exact ⟨gone, _, before, (List.append_nil _).symm, reasons, by simp⟩
    · have evicting : Drops (s.Loses lim (.enqueue target packet now true)) (s.pruned lim target now) u :=
        (drops_evictions evictions).mono fun _ _ => Or.inr
      have setting : Drops (s.Loses lim (.enqueue target packet now true)) (s.pruneExpired lim now)
          (s.pruned lim target now) := .of_same fun _ => queueOf_pruned
      obtain ⟨gone, before, reasons⟩ := ((pruning.trans setting).trans evicting) peer
      exact ⟨gone, _, before, queueOf_append (spared.mpr keeps), reasons, by simp⟩
  | @dequeueForPeer t target now packets returned =>
    unfold dequeueForPeer at returned
    by_cases own : normalizePeerId target = peer
    · refine ⟨s.queueOf peer, [], (List.append_nil _).symm, ?_, fun _ _ => own, ?_⟩
      · subst own
        simp only [Call.enters]
        cases found : s.queues.get? (normalizePeerId target) with
        | none =>
          simp only [found] at returned
          obtain ⟨-, rfl⟩ := Prod.mk.inj returned
          simp [queueOf, found]
        | some queue =>
          simp only [found] at returned
          obtain ⟨-, rfl⟩ := Prod.mk.inj returned
          simp [queueOf]
      · rintro _ _ _ ⟨⟩ -
        refine ⟨rfl, ?_⟩
        subst own
        cases found : s.queues.get? (normalizePeerId target) with
        | none =>
          simp only [found] at returned
          simp [queueOf, found, (Prod.mk.inj returned).1.symm]
        | some queue =>
          simp only [found] at returned
          simp [queueOf, found, (Prod.mk.inj returned).1.symm]
    · refine ⟨[], s.queueOf peer, rfl, ?_, by simp, ?_⟩
      · simp only [Call.enters, List.append_nil]
        cases found : s.queues.get? (normalizePeerId target) with
        | none =>
          simp only [found] at returned
          obtain ⟨-, rfl⟩ := Prod.mk.inj returned
          rfl
        | some queue =>
          simp only [found] at returned
          obtain ⟨-, rfl⟩ := Prod.mk.inj returned
          simp [queueOf, Ne.symm own]
      · rintro _ _ _ ⟨⟩ same
        exact absurd same own
  | pruneExpired now =>
    obtain ⟨gone, before, reasons⟩ := drops_pruneExpired lim now s peer
    exact ⟨gone, _, before, (List.append_nil _).symm, reasons, by simp⟩
  | clear =>
    exact ⟨s.queueOf peer, [], (List.append_nil _).symm, rfl, fun _ _ => trivial, by simp⟩

end Calls

/-- How an accepted packet left the queue. -/
inductive Fate where
  | delivered
  | expired
  | evicted
  | cleared
deriving DecidableEq

/-- An accepted packet that is no longer held, with the numbers of the calls that accepted it and
that took it. -/
structure Settled where
  accepted : Nat
  item : QueuedPacket
  taken : Nat
  fate : Fate

section Accounts
variable [CaseMapping]

/-- The packets accepted for a peer, in order, with the numbers of the calls. -/
def acceptedFor (peer : Str) (history : List (Taken StoreAndForwardQueue Call)) : List (Nat × QueuedPacket) :=
  history.zipIdx.flatMap fun e => (e.1.label.enters peer).map fun item => (e.2, item)

/-- The call gives a packet of the peer its fate. -/
def Fate.Explains (lim : Limits) (e : Taken StoreAndForwardQueue Call) (peer : Str) (item : QueuedPacket) :
    Fate → Prop
  | .delivered => e.label.Takes peer ∧ ∀ now ∈ e.label.now?, StoreAndForwardQueue.expired lim now item = false
  | .expired => ∃ now ∈ e.label.now?, StoreAndForwardQueue.expired lim now item = true
  | .evicted => ∃ target packet now accepted, e.label = .enqueue target packet now accepted ∧
      CapEvicts lim e.before target packet now peer item
  | .cleared => e.label = .clear

/-- A later call took the packet, and gave it its fate. No dequeue of the peer came between. -/
structure Settled.Explained (lim : Limits) (history : List (Taken StoreAndForwardQueue Call)) (peer : Str)
    (x : Settled) : Prop where
  later : x.accepted < x.taken
  untaken : ∀ (k : Nat) e, x.accepted < k → k < x.taken → history[k]? = some e → ¬ e.label.Takes peer
  explains : ∃ e, history[x.taken]? = some e ∧ x.fate.Explains lim e peer x.item

/-- The account of a peer: the packets accepted for it are the settled ones and after them the
waiting ones, which its queue holds. A dequeue returned those settled as delivered by it. -/
structure Account (lim : Limits) (history : List (Taken StoreAndForwardQueue Call)) (s : StoreAndForwardQueue)
    (peer : Str) (settled : List Settled) (waiting : List (Nat × QueuedPacket)) : Prop where
  accepted : acceptedFor peer history = (settled.map fun x => (x.accepted, x.item)) ++ waiting
  held : s.queueOf peer = waiting.map Prod.snd
  explained : ∀ x ∈ settled, x.Explained lim history peer
  earlier : ∀ w ∈ waiting, w.1 < history.length
  untaken : ∀ w ∈ waiting, ∀ (k : Nat) e, w.1 < k → history[k]? = some e → ¬ e.label.Takes peer
  delivers : ∀ (j : Nat) e target now packets, history[j]? = some e →
    e.label = .dequeueForPeer target now packets → normalizePeerId target = peer →
    packets = (settled.filter fun x => x.taken = j ∧ x.fate = .delivered).map fun x => x.item.packet

/-- The fate that a call gives a packet it takes. -/
def Call.fateOf (lim : Limits) (item : QueuedPacket) : Call → Fate
  | .enqueue _ _ now _ => if StoreAndForwardQueue.expired lim now item then .expired else .evicted
  | .dequeueForPeer _ now _ => if StoreAndForwardQueue.expired lim now item then .expired else .delivered
  | .pruneExpired _ => .expired
  | .clear => .cleared

variable {lim : Limits} {history : List (Taken StoreAndForwardQueue Call)} {s : StoreAndForwardQueue}
  {e : Taken StoreAndForwardQueue Call} {peer : Str} {item : QueuedPacket} {settled : List Settled}
  {waiting : List (Nat × QueuedPacket)}

theorem fateOf_explains (loses : e.before.Loses lim e.label peer item) :
    (e.label.fateOf lim item).Explains lim e peer item := by
  obtain ⟨before, call, after⟩ := e
  cases call with
  | enqueue target packet now accepted =>
    simp only [Call.fateOf]
    split
    · next late => exact ⟨now, rfl, late⟩
    · next fresh => exact ⟨target, packet, now, accepted, rfl, loses.resolve_left fresh⟩
  | dequeueForPeer target now packets =>
    simp only [Call.fateOf]
    split
    · next late => exact ⟨now, rfl, late⟩
    · next fresh =>
      refine ⟨⟨target, now, packets, rfl, loses⟩, ?_⟩
      rintro _ ⟨⟩
      exact Bool.eq_false_iff.mpr fresh
  | pruneExpired now => exact ⟨now, rfl, loses⟩
  | clear => rfl

theorem acceptedFor_concat : acceptedFor peer (history ++ [e]) =
    acceptedFor peer history ++ (e.label.enters peer).map fun item => (history.length, item) := by
  simp [acceptedFor, List.zipIdx_append]

theorem enters_cases (peer : Str) (call : Call) :
    call.enters peer = [] ∨ ∃ item, call.enters peer = [item] := by
  unfold Call.enters
  split
  · split
    · exact Or.inr ⟨_, rfl⟩
    · exact Or.inl rfl
  · exact Or.inl rfl

/-- Each packet is accepted by a call of its own. -/
theorem acceptedFor_numbered (peer : Str) (history : List (Taken StoreAndForwardQueue Call)) :
    (∀ w ∈ acceptedFor peer history, w.1 < history.length) ∧
      ((acceptedFor peer history).map Prod.fst).Pairwise (· < ·) := by
  induction history using List.reverseRecOn with
  | nil => simp [acceptedFor]
  | append_singleton history e ih =>
    obtain ⟨bound, numbered⟩ := ih
    rw [acceptedFor_concat, List.length_append, List.length_singleton]
    rcases enters_cases peer e.label with none | ⟨item, one⟩
    · rw [none, List.map_nil, List.append_nil]
      exact ⟨fun w member => (bound w member).trans (Nat.lt_succ_self _), numbered⟩
    · rw [one, List.map_singleton, List.map_append, List.map_singleton]
      constructor
      · intro w member
        rcases List.mem_append.mp member with old | new
        · exact (bound w old).trans (Nat.lt_succ_self _)
        · rw [List.mem_singleton.mp new]
          exact Nat.lt_succ_self _
      · refine List.pairwise_append.mpr ⟨numbered, List.pairwise_singleton _ _, ?_⟩
        intro n old m new
        obtain ⟨w, member, rfl⟩ := List.mem_map.mp old
        rw [List.mem_singleton.mp new]
        exact bound w member

omit [CaseMapping] in
theorem getElem?_concat_cases {k : Nat} {x : Taken StoreAndForwardQueue Call}
    (found : (history ++ [e])[k]? = some x) :
    history[k]? = some x ∨ k = history.length ∧ x = e := by
  rcases Nat.lt_trichotomy k history.length with before | rfl | after
  · rw [List.getElem?_append_left before] at found
    exact Or.inl found
  · rw [List.getElem?_concat_length] at found
    exact Or.inr ⟨rfl, (Option.some.inj found).symm⟩
  · rw [List.getElem?_eq_none (by simp; omega)] at found
    cases found

/-- What is explained stays so. -/
theorem Settled.Explained.mono {x : Settled} (explained : x.Explained lim history peer) :
    x.Explained lim (history ++ [e]) peer := by
  obtain ⟨later, untaken, taker, found, explains⟩ := explained
  have inside : x.taken < history.length := (List.getElem?_eq_some_iff.mp found).1
  refine ⟨later, fun k y above below here => ?_, taker, ?_, explains⟩
  · rw [List.getElem?_append_left (by omega)] at here
    exact untaken k y above below here
  · rw [List.getElem?_append_left inside]
    exact found

theorem Settled.Explained.inside {x : Settled} (explained : x.Explained lim history peer) :
    x.taken < history.length := by
  obtain ⟨-, -, e, found, -⟩ := explained
  exact (List.getElem?_eq_some_iff.mp found).1

/-- The settlement of a waiting packet by the next call. -/
def settle (lim : Limits) (history : List (Taken StoreAndForwardQueue Call)) (call : Call)
    (w : Nat × QueuedPacket) : Settled :=
  ⟨w.1, w.2, history.length, call.fateOf lim w.2⟩

omit [CaseMapping] in
/-- The packets that a dequeue settles as delivered are those it returns. -/
theorem settle_delivered {target : PeerName} {now : Seconds} {packets : List BitchatPacket}
    {gone : List (Nat × QueuedPacket)} :
    (((gone.map (settle lim history (.dequeueForPeer target now packets))).filter fun x =>
      x.taken = history.length ∧ x.fate = .delivered).map fun x => x.item.packet) =
    ((gone.map Prod.snd).filter fun item => !expired lim now item).map QueuedPacket.packet := by
  have test : ∀ w : Nat × QueuedPacket,
      (decide ((settle lim history (.dequeueForPeer target now packets) w).taken = history.length ∧
        (settle lim history (.dequeueForPeer target now packets) w).fate = .delivered)) =
      !expired lim now w.2 := by
    intro w
    simp only [settle, Call.fateOf, true_and]
    cases expired lim now w.2 <;> rfl
  simp only [List.filter_map, Function.comp_def, test, List.map_map]
  rfl

/-- A call settles the packets that it takes off the front of the queue. -/
theorem Account.advance {gone rest : List QueuedPacket}
    (account : Account lim history e.before peer settled waiting)
    (front : e.before.queueOf peer = gone ++ rest)
    (back : e.after.queueOf peer = rest ++ e.label.enters peer)
    (loses : ∀ item ∈ gone, e.before.Loses lim e.label peer item)
    (takes : ∀ target now packets, e.label = .dequeueForPeer target now packets →
      normalizePeerId target = peer → rest = [] ∧
        packets = (gone.filter fun item => !expired lim now item).map QueuedPacket.packet) :
    ∃ settled waiting, Account lim (history ++ [e]) e.after peer settled waiting := by
  obtain ⟨first, last, rfl, rfl, rfl⟩ := List.map_eq_append_iff.mp (account.held.symm.trans front)
  refine ⟨settled ++ first.map (settle lim history e.label),
    last ++ (e.label.enters peer).map fun item => (history.length, item), ?_, ?_, ?_, ?_, ?_, ?_⟩
  · rw [acceptedFor_concat, account.accepted]
    simp [settle, Function.comp_def]
  · rw [back]
    simp [Function.comp_def]
  · intro x member
    rcases List.mem_append.mp member with old | new
    · exact (account.explained x old).mono
    · obtain ⟨w, inFirst, rfl⟩ := List.mem_map.mp new
      have before := account.earlier w (List.mem_append_left _ inFirst)
      refine ⟨before, fun k y above below here => ?_, e, List.getElem?_concat_length, ?_⟩
      · rw [List.getElem?_append_left below] at here
        exact account.untaken w (List.mem_append_left _ inFirst) k y above here
      · exact fateOf_explains (loses w.2 (List.mem_map_of_mem inFirst))
  · intro w member
    rw [List.length_append, List.length_singleton]
    rcases List.mem_append.mp member with old | new
    · have := account.earlier w (List.mem_append_right _ old)
      omega
    · obtain ⟨item, -, rfl⟩ := List.mem_map.mp new
      exact Nat.lt_succ_self _
  · intro w member k y above here
    rcases getElem?_concat_cases here with before | ⟨rfl, rfl⟩
    · rcases List.mem_append.mp member with old | new
      · exact account.untaken w (List.mem_append_right _ old) k y above before
      · obtain ⟨item, -, rfl⟩ := List.mem_map.mp new
        have := (List.getElem?_eq_some_iff.mp before).1
        simp only at above
        omega
    · rintro ⟨target, now, packets, label, same⟩
      rcases List.mem_append.mp member with old | new
      · rw [List.map_eq_nil_iff.mp (takes target now packets label same).1] at old
        cases old
      · obtain ⟨item, -, rfl⟩ := List.mem_map.mp new
        exact lt_irrefl _ above
  · intro j y target now packets here label same
    rw [List.filter_append, List.map_append]
    rcases getElem?_concat_cases here with before | ⟨rfl, rfl⟩
    · have inside := (List.getElem?_eq_some_iff.mp before).1
      have others : ((first.map (settle lim history e.label)).filter fun x =>
          x.taken = j ∧ x.fate = .delivered) = [] := by
        rw [List.filter_eq_nil_iff]
        intro x member
        obtain ⟨w, -, rfl⟩ := List.mem_map.mp member
        intro both
        have taken : history.length = j := (of_decide_eq_true both).1
        omega
      rw [others, List.map_nil, List.append_nil]
      exact account.delivers j y target now packets before label same
    · have others : (settled.filter fun x => x.taken = history.length ∧ x.fate = .delivered) = [] := by
        rw [List.filter_eq_nil_iff]
        intro x member
        have before := (account.explained x member).inside
        intro both
        exact before.ne (of_decide_eq_true both).1
      rw [others, List.map_nil, List.nil_append, label, settle_delivered]
      exact (takes target now packets label same).2

/-- The calls read a clock that does not go back. -/
def Clocked (history : List (Taken StoreAndForwardQueue Call)) : Prop :=
  history.Pairwise fun e f => ∀ earlier ∈ e.label.now?, ∀ later ∈ f.label.now?, earlier ≤ later

omit [CaseMapping] in
theorem Clocked.le (clocked : Clocked history) {i j : Nat} {x y : Taken StoreAndForwardQueue Call}
    (first : history[i]? = some x) (second : history[j]? = some y) (order : i ≤ j) {m n : Seconds}
    (time : m ∈ x.label.now?) (time' : n ∈ y.label.now?) : m ≤ n := by
  obtain ⟨inside, rfl⟩ := List.getElem?_eq_some_iff.mp first
  obtain ⟨inside', rfl⟩ := List.getElem?_eq_some_iff.mp second
  rcases order.eq_or_lt with rfl | before
  · rw [Option.mem_def.mp time] at time'
    exact (Option.some.inj time').le
  · exact List.pairwise_iff_getElem.mp clocked i j inside inside' before m time n time'

/-- A settled packet was gone by the next dequeue of its peer, and one that expired is expired then. -/
theorem Settled.Explained.gone_by {x : Settled} (explained : x.Explained lim history peer)
    (clocked : Clocked history) {j : Nat} (next : x.accepted < j) (here : history[j]? = some e)
    (takes : e.label.Takes peer) :
    x.taken ≤ j ∧ (x.fate = .expired → ∀ now ∈ e.label.now?, expired lim now x.item = true) := by
  obtain ⟨later, untaken, taker, found, explains⟩ := explained
  have order : x.taken ≤ j := by
    by_contra after
    exact untaken j e next (not_le.mp after) here takes
  refine ⟨order, fun fate now time => ?_⟩
  rw [fate] at explains
  obtain ⟨earlier, time', late⟩ := explains
  have passed := clocked.le found here order time' time
  simp only [expired, decide_eq_true_eq] at late ⊢
  exact late.trans_le (sub_le_sub_right passed _)

end Accounts

section Runs
variable [CaseMapping] {lim : Limits} {history : List (Taken StoreAndForwardQueue Call)}
  {s : StoreAndForwardQueue}

/-- In a run whose evictions spare the queues of their targets every peer has an account. -/
theorem account_of_run (run : Run (Called lim) new history s)
    (keeps : ∀ e ∈ history, KeepsTarget lim e.before e.label.op) (peer : Str) :
    Accounted lim s ∧ ∃ settled waiting, Account lim history s peer settled waiting := by
  induction run with
  | nil =>
    refine ⟨new_accounted lim, [], [], rfl, rfl, ?_, ?_, ?_, ?_⟩
    all_goals simp
  | @snoc history s call t earlier called ih =>
    obtain ⟨ok, settled, waiting, account⟩ := ih fun e member => keeps e (List.mem_append_left _ member)
    have condition : KeepsTarget lim s call.op := keeps ⟨s, call, t⟩ (by simp)
    obtain ⟨gone, rest, front, back, loses, takes⟩ := called_queueOf ok called condition peer
    exact ⟨(step_accounted_iff ok called.step).mpr condition,
      Account.advance (e := ⟨s, call, t⟩) account front back loses takes⟩

/-- In every run with a clock that does not go back what a call accepts is last in its queue exactly
when the evictions spare that queue. Then every peer has an account, in which a packet missing from
the next dequeue has expired, was cleared, or was evicted by a later call while a cap was reached.
What is too big on its own is refused, and only expired packets go with that call. -/
theorem accepted_packets_accounted (run : Run (Called lim) new history s) (clocked : Clocked history) :
    ((∀ e ∈ history, Acknowledged e.label e.after) ↔
      ∀ e ∈ history, KeepsTarget lim e.before e.label.op) ∧
    (∀ peer, ((acceptedFor peer history).map Prod.fst).Pairwise (· < ·)) ∧
    ((∀ e ∈ history, KeepsTarget lim e.before e.label.op) →
      ∀ peer, ∃ settled waiting, Account lim history s peer settled waiting ∧
        ∀ x ∈ settled, ∀ (j : Nat) e, x.accepted < j → history[j]? = some e → e.label.Takes peer →
          x.taken ≤ j ∧ (x.fate = .expired → ∀ now ∈ e.label.now?, expired lim now x.item = true)) ∧
    ∀ e ∈ history, ∀ target packet now accepted, e.label = .enqueue target packet now accepted →
      lim.maxTotalBytes < packetSize packet →
      accepted = false ∧ Drops (fun _ item => expired lim now item = true) e.before e.after := by
  refine ⟨?_, fun peer => (acceptedFor_numbered peer history).2, fun keeps peer => ?_,
    fun e member target packet now accepted label big => ?_⟩
  · apply run.meets_iff (P := Accounted lim) (Q := fun _ call t => Acknowledged call t)
      (C := fun s call => KeepsTarget lim s call.op) (new_accounted lim)
    · exact acknowledged_iff
    · exact fun ok condition called => (step_accounted_iff ok called.step).mpr condition
  · obtain ⟨-, settled, waiting, account⟩ := account_of_run run keeps peer
    exact ⟨settled, waiting, account, fun x member j e next here takes =>
      (account.explained x member).gone_by clocked next here takes⟩
  · have called := run.stepped member
    rw [label] at called
    cases called with
    | enqueue returned =>
      unfold enqueue at returned
      rw [if_pos big] at returned
      obtain ⟨rfl, same⟩ := Prod.mk.inj (Option.some.inj returned)
      exact ⟨rfl, same ▸ drops_pruneExpired lim now e.before⟩

end Runs

section Sample
attribute [local instance] Str.asciiCase

/-- A packet is stored and then handed out. -/
def storedAndTaken : List (Taken StoreAndForwardQueue Call) :=
  [⟨new, .enqueue alice emptyMessage 0 true, oneStored⟩,
    ⟨oneStored, .dequeueForPeer alice 1 [emptyMessage], new⟩]

theorem storedAndTaken_run : Run (Called singleSlot) new storedAndTaken new := by
  have first : new.enqueue singleSlot 1 alice emptyMessage 0 = some (true, oneStored) := by decide +kernel
  have second : oneStored.dequeueForPeer singleSlot alice 1 = ([emptyMessage], new) := by decide +kernel
  exact (Run.nil.snoc (.enqueue first)).snoc (.dequeueForPeer second)

/-- The account of its peer has one packet, which is no longer held. -/
theorem stored_packet_settled :
    ∃ settled waiting, Account singleSlot storedAndTaken new ['a'] settled waiting := by
  have clocked : Clocked storedAndTaken := by
    simp [Clocked, storedAndTaken, Call.now?]
  have whole := accepted_packets_accounted storedAndTaken_run clocked
  have acknowledged : ∀ e ∈ storedAndTaken, Acknowledged e.label e.after := by
    intro e member target packet now label
    rcases List.mem_pair.mp member with rfl | rfl
    · cases label
      exact ⟨by decide +kernel, by decide +kernel⟩
    · cases label
  obtain ⟨settled, waiting, account, -⟩ := whole.2.2.1 (whole.1.mp acknowledged) ['a']
  exact ⟨settled, waiting, account⟩

/-- Two packets for the peer are accepted. -/
def acceptedTwice : List (Taken StoreAndForwardQueue Call) :=
  [⟨new, .enqueue alice emptyMessage 0 true, oneStored⟩,
    ⟨oneStored, .enqueue alice emptyMessage 1 true, oneLost⟩]

/-- With one slot in all a second packet for the peer is accepted and held nowhere. -/
theorem accepted_packet_lost : ¬ ∀ (lim : Limits) (history : List (Taken StoreAndForwardQueue Call))
    (s : StoreAndForwardQueue), Run (Called lim) new history s → Clocked history →
    ∀ e ∈ history, Acknowledged e.label e.after := by
  intro acknowledges
  have first : new.enqueue singleSlot 1 alice emptyMessage 0 = some (true, oneStored) := by decide +kernel
  have second : oneStored.enqueue singleSlot 1 alice emptyMessage 1 = some (true, oneLost) := by
    decide +kernel
  have run : Run (Called singleSlot) new acceptedTwice oneLost :=
    (Run.nil.snoc (.enqueue first)).snoc (.enqueue second)
  have clocked : Clocked acceptedTwice := by
    simp [Clocked, acceptedTwice, Call.now?]
  have held := acknowledges singleSlot acceptedTwice oneLost run clocked _
    (List.mem_cons_of_mem _ (List.mem_singleton_self _)) alice emptyMessage 1 rfl
  exact absurd held.2 (by decide +kernel)

end Sample
end Bitchat.Mesh.StoreAndForwardQueue
