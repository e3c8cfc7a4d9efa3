import Bitchat.App.Relaying
import Bitchat.Data.KeepApart
import Bitchat.Lan.TableEffects

/-! Broadcasts over a LAN transport. Of the ready connections it sends over the first under each
cached key, so each neighbour gets a packet once where the keys tell the neighbours apart. -/
namespace Bitchat.Lan
open Protocol Str
namespace LANTransport

section Broadcast
variable [CaseMapping]

/-- One turn of the loop of `broadcast_packet`, with the connections and keys it has sent to. -/
def sendVia (exclude : Option Str) (s : LANTransport) (sent : List Ref × List Str) (e : Str × Ref) :
    List Ref × List Str :=
  if ¬ s.isReady e.2 ∨ e.2 ∈ sent.1 then sent
  else if some e.1 = exclude ∨ some (s.heap e.2).peerAddress = exclude then sent
  else if s.broadcastKey e.1 e.2 ∈ sent.2 then sent
  else (sent.1 ++ [e.2], sent.2 ++ [s.broadcastKey e.1 e.2])

/-- The connections that `broadcast_packet` sends a packet over. -/
def broadcastPacket (exclude : Option Str) (s : LANTransport) : List Ref :=
  (s.connections.entries.foldl (s.sendVia exclude) ([], [])).1

/-- An entry of the excluded address. -/
def Excluded (exclude : Option Str) (e : Str × Ref) (s : LANTransport) : Prop :=
  some e.1 = exclude ∨ some (s.heap e.2).peerAddress = exclude

instance {exclude : Option Str} {e : Str × Ref} {s : LANTransport} : Decidable (s.Excluded exclude e) :=
  inferInstanceAs (Decidable (_ ∨ _))

/-- Two entries of which a broadcast takes one. -/
def alike (s : LANTransport) (e f : Str × Ref) : Bool :=
  f.2 = e.2 ∨ s.broadcastKey f.1 f.2 = s.broadcastKey e.1 e.2

/-- The entries that a broadcast goes through. -/
def eligible (exclude : Option Str) (s : LANTransport) : List (Str × Ref) :=
  s.connections.entries.filter fun e => s.isReady e.2 ∧ ¬ s.Excluded exclude e

theorem any_alike {s : LANTransport} {e : Str × Ref} (kept : List (Str × Ref)) :
    kept.any (s.alike e) = true ↔
      e.2 ∈ kept.map Prod.snd ∨ s.broadcastKey e.1 e.2 ∈ kept.map fun e => s.broadcastKey e.1 e.2 := by
  simp only [List.any_eq_true, alike, decide_eq_true_eq, List.mem_map, and_or_left, exists_or]

theorem sendVia_again {exclude : Option Str} {s : LANTransport} {e : Str × Ref} (kept : List (Str × Ref))
    (again : kept.any (s.alike e) = true) :
    s.sendVia exclude (kept.map Prod.snd, kept.map fun e => s.broadcastKey e.1 e.2) e =
      (kept.map Prod.snd, kept.map fun e => s.broadcastKey e.1 e.2) := by
  unfold sendVia
  rcases (any_alike kept).mp again with sent | used
  · rw [if_pos (Or.inr sent)]
  · rw [if_pos used, ite_self, ite_self]

theorem sendVia_takes {exclude : Option Str} {s : LANTransport} {e : Str × Ref} (kept : List (Str × Ref))
    (passed : s.isReady e.2 = true ∧ ¬ s.Excluded exclude e) (apart : ¬ kept.any (s.alike e) = true) :
    s.sendVia exclude (kept.map Prod.snd, kept.map fun e => s.broadcastKey e.1 e.2) e =
      ((kept ++ [e]).map Prod.snd, (kept ++ [e]).map fun e => s.broadcastKey e.1 e.2) := by
  have going : ¬ (some e.1 = exclude ∨ some (s.heap e.2).peerAddress = exclude) := passed.2
  have unsent : e.2 ∉ kept.map Prod.snd := fun sent => apart ((any_alike kept).mpr (Or.inl sent))
  unfold sendVia
  rw [if_neg (by simp [passed.1, unsent]), if_neg going,
    if_neg fun used => apart ((any_alike kept).mpr (Or.inr used))]
  simp only [List.map_append, List.map_singleton]

theorem sendVia_skipped {exclude : Option Str} {s : LANTransport} {e : Str × Ref} (sent : List Ref × List Str)
    (skipped : ¬ (s.isReady e.2 = true ∧ ¬ s.Excluded exclude e)) : s.sendVia exclude sent e = sent := by
  unfold sendVia
  by_cases ready : s.isReady e.2 = true
  · have out : some e.1 = exclude ∨ some (s.heap e.2).peerAddress = exclude :=
      not_not.mp fun kept => skipped ⟨ready, kept⟩
    rw [if_pos out, ite_self]
  · rw [if_pos (Or.inl ready)]

theorem broadcastPacket_eq (exclude : Option Str) (s : LANTransport) :
    s.broadcastPacket exclude = (keepApart s.alike (s.eligible exclude)).map Prod.snd := by
  have loop : s.connections.entries.foldl (s.sendVia exclude) ([], []) = _ :=
    foldl_eq_keepApart (fun kept => (kept.map Prod.snd, kept.map fun e => s.broadcastKey e.1 e.2))
      (fun _ _ skipped => sendVia_skipped _ skipped) (fun kept _ _ => sendVia_again kept)
      (fun kept _ => sendVia_takes kept)
  rw [broadcastPacket, loop]
  rfl

/-- The addresses that a broadcast goes to are those of the connections it is sent over. -/
theorem broadcastLinks_eq (exclude : Option Str) (s : LANTransport) :
    s.broadcastLinks exclude = (keepApart s.alike (s.eligible exclude)).map Prod.fst := by
  have loop : s.connections.entries.foldl (fun (sent : List Ref × List Str × List Str) e =>
      if ¬ s.isReady e.2 ∨ e.2 ∈ sent.1 ∨ some e.1 = exclude ∨ some (s.heap e.2).peerAddress = exclude ∨
        s.broadcastKey e.1 e.2 ∈ sent.2.1 then sent
      else (sent.1 ++ [e.2], sent.2.1 ++ [s.broadcastKey e.1 e.2], sent.2.2 ++ [e.1])) ([], [], []) =
      let kept := keepApart s.alike (s.eligible exclude)
      (kept.map Prod.snd, kept.map (fun e => s.broadcastKey e.1 e.2), kept.map Prod.fst) := by
    apply foldl_eq_keepApart fun kept =>
      (kept.map Prod.snd, kept.map (fun e => s.broadcastKey e.1 e.2), kept.map Prod.fst)
    · intro kept e skipped
      apply if_pos
      by_cases ready : s.isReady e.2 = true
      · have out : s.Excluded exclude e := not_not.mp fun kept => skipped ⟨ready, kept⟩
        exact Or.inr (Or.inr (out.elim Or.inl fun ends => Or.inr (Or.inl ends)))
      · exact Or.inl ready
    · intro kept e _ again
      apply if_pos
      rcases (any_alike kept).mp again with sent | used
      · exact Or.inr (Or.inl sent)
      · exact Or.inr (Or.inr (Or.inr (Or.inr used)))
    · intro kept e passed apart
      dsimp only
      rw [if_neg]
      · simp only [List.map_append, List.map_singleton]
      · rintro (idle | sent | out | out | used)
        · exact idle passed.1
        · exact apart ((any_alike kept).mpr (Or.inl sent))
        · exact passed.2 (Or.inl out)
        · exact passed.2 (Or.inr out)
        · exact apart ((any_alike kept).mpr (Or.inr used))
  rw [broadcastLinks, loop]

theorem broadcastLinks_connections (exclude : Option Str) (s : LANTransport) :
    (s.broadcastLinks exclude).map s.connections.get? = (s.broadcastPacket exclude).map some := by
  rw [broadcastLinks_eq, broadcastPacket_eq, List.map_map, List.map_map]
  refine List.map_congr_left fun e kept => ?_
  have entered := (List.mem_filter.mp (keepApart_sublist.subset kept)).1
  exact InsertionMap.get?_eq_some_of_mem entered

end Broadcast

section Neighbours
variable {π : Type*} (peerAt : Str → π)

/-- The neighbour at the other end of a connection. -/
def peerOf (r : Ref) (s : LANTransport) : π := peerAt (s.heap r).peerAddress

/-- Among the other ready connections the key is that of those to the peer. -/
def Fits (peer : π) (gone : List Ref) (peerKey : Str) (s : LANTransport) : Prop :=
  ∀ a r, s.connections.get? a = some r → r ∉ gone → s.isReady r = true →
    (s.peerOf peerAt r = peer ↔ s.addressToPeerKey.get? a = some peerKey)

/-- The cached keys tell the neighbours with ready connections apart. -/
structure Keyed (s : LANTransport) : Prop where
  cached : ∀ a r, s.connections.get? a = some r → ∃ key, key ≠ [] ∧ s.addressToPeerKey.get? a = some key
  apart : ∀ a r b q, s.connections.get? a = some r → s.connections.get? b = some q →
    s.isReady r = true → s.isReady q = true → r ≠ q →
    (s.peerOf peerAt r = s.peerOf peerAt q ↔ s.addressToPeerKey.get? a = s.addressToPeerKey.get? b)

variable [CaseMapping] [Python.DigitTable] [DecidableEq π]

end Neighbours

section Once
variable {π : Type*} {peerAt : Str → π} [CaseMapping] {s t : LANTransport} {r : Ref} {address peerKey : Str}

omit [CaseMapping] in
theorem mem_eligible {exclude : Option Str} {e : Str × Ref} : e ∈ s.eligible exclude ↔
    e ∈ s.connections.entries ∧ s.isReady e.2 = true ∧ ¬ s.Excluded exclude e := by
  simp [eligible]

theorem Keyed.broadcastKey (keyed : s.Keyed peerAt) (entry : s.connections.get? address = some r) :
    s.addressToPeerKey.get? address = some (s.broadcastKey address r) := by
  obtain ⟨key, known, cached⟩ := keyed.cached address r entry
  simp [LANTransport.broadcastKey, cached, Option.filter_some, known]

/-- A broadcast passes over exactly the entries of the neighbours it has sent to. -/
theorem Keyed.alike_iff (keyed : s.Keyed peerAt) {exclude : Option Str} {e f : Str × Ref}
    (first : e ∈ s.eligible exclude) (second : f ∈ s.eligible exclude) :
    s.alike e f = true ↔ s.peerOf peerAt e.2 = s.peerOf peerAt f.2 := by
  obtain ⟨entered, ready, -⟩ := mem_eligible.mp first
  obtain ⟨entered', ready', -⟩ := mem_eligible.mp second
  have entry := InsertionMap.get?_eq_some_of_mem entered
  have entry' := InsertionMap.get?_eq_some_of_mem entered'
  simp only [alike, decide_eq_true_eq]
  by_cases same : f.2 = e.2
  · simp [same]
  · have apart := keyed.apart f.1 f.2 e.1 e.2 entry' entry ready' ready same
    rw [keyed.broadcastKey entry, keyed.broadcastKey entry', Option.some_inj] at apart
    rw [or_iff_right same, ← apart, eq_comm]

variable [DecidableEq π]

theorem Keyed.count (keyed : s.Keyed peerAt) (exclude : Option Str) (p : π) :
    (s.broadcastPacket exclude).countP (fun q => s.peerOf peerAt q = p) =
      if p ∈ (s.eligible exclude).map (fun e => s.peerOf peerAt e.2) then 1 else 0 := by
  rw [broadcastPacket_eq, List.countP_map]
  exact keepApart_count (fun e => s.peerOf peerAt e.2) (fun e he f hf => keyed.alike_iff he hf) p

end Once

section Steps
variable {π : Type*} {peerAt : Str → π} {s t : LANTransport} {r : Ref} {address peerKey : Str}
  {peer : π} {gone gone' : List Ref}

theorem Lessens.peerOf (less : Lessens s t) (old : r < s.nextRef) : t.peerOf peerAt r = s.peerOf peerAt r :=
  congrArg peerAt (less.ends r old)

theorem Fits.lessens (fits : s.Fits peerAt peer gone peerKey) (allocated : s.Allocated)
    (less : Lessens s t) (left : ∀ a r, t.connections.get? a = some r → r ∉ gone' → r ∉ gone) :
    t.Fits peerAt peer gone' peerKey := by
  intro a r found other ready
  have entry := less.entered a r found
  have old := allocated.entered a r entry
  rw [less.peerOf old, less.cached a r found]
  exact fits a r entry (left a r found other) (less.ready r old ready)

theorem Keyed.lessens (keyed : s.Keyed peerAt) (allocated : s.Allocated) (less : Lessens s t) :
    t.Keyed peerAt := by
  refine ⟨fun a r found => ?_, fun a r b q found found' ready ready' other => ?_⟩
  · rw [less.cached a r found]
    exact keyed.cached a r (less.entered a r found)
  · have entry := less.entered a r found
    have entry' := less.entered b q found'
    have old := allocated.entered a r entry
    have old' := allocated.entered b q entry'
    rw [less.peerOf old, less.peerOf old', less.cached a r found, less.cached b q found']
    exact keyed.apart a r b q entry entry' (less.ready r old ready) (less.ready q old' ready') other

theorem Keyed.fits (keyed : s.Keyed peerAt) (entry : s.connections.get? address = some r)
    (cached : s.addressToPeerKey.get? address = some peerKey) (ready : s.isReady r = true) :
    s.Fits peerAt (s.peerOf peerAt r) [r] peerKey := by
  intro a q found other ready'
  have distinct : q ≠ r := fun same => other (same ▸ List.mem_singleton_self _)
  rw [← cached]
  exact keyed.apart a q address r found entry ready' ready distinct

/-- The entries of one connection change, and the other entries stay. -/
theorem Keyed.change (keyed : s.Keyed peerAt) (r : Ref) (ends : ∀ q, t.peerOf peerAt q = s.peerOf peerAt q)
    (others : ∀ a q, q ≠ r → t.connections.get? a = some q → s.connections.get? a = some q ∧
      t.addressToPeerKey.get? a = s.addressToPeerKey.get? a ∧ (t.isReady q = true → s.isReady q = true))
    (mine : ∀ a, t.connections.get? a = some r → ∃ key, key ≠ [] ∧ t.addressToPeerKey.get? a = some key ∧
      (t.isReady r = true → s.Fits peerAt (s.peerOf peerAt r) [r] key)) :
    t.Keyed peerAt := by
  have against {a b : Str} {q : Ref} (here : t.connections.get? a = some r)
      (found : t.connections.get? b = some q) (ready : t.isReady r = true) (ready' : t.isReady q = true)
      (other : q ≠ r) :
      t.peerOf peerAt q = t.peerOf peerAt r ↔ t.addressToPeerKey.get? b = t.addressToPeerKey.get? a := by
    obtain ⟨key, -, cached, fits⟩ := mine a here
    obtain ⟨entry, same, readyBefore⟩ := others b q other found
    rw [ends, ends, cached, same]
    exact fits ready b q entry (by simpa using other) (readyBefore ready')
  refine ⟨fun a q found => ?_, fun a p b q found found' ready ready' distinct => ?_⟩
  · by_cases own : q = r
    · obtain ⟨key, known, cached, -⟩ := mine a (own ▸ found)
      exact ⟨key, known, cached⟩
    · obtain ⟨entry, same, -⟩ := others a q own found
      rw [same]
      exact keyed.cached a q entry
  · by_cases first : p = r
    · subst first
      rw [eq_comm, @eq_comm _ (t.addressToPeerKey.get? a)]
      exact against found found' ready ready' distinct.symm
    · by_cases second : q = r
      · subst second
        exact against found' found ready' ready distinct
      · obtain ⟨entry, same, readyBefore⟩ := others a p first found
        obtain ⟨entry', same', readyBefore'⟩ := others b q second found'
        rw [ends, ends, same, same']
        exact keyed.apart a p b q entry entry' (readyBefore ready) (readyBefore' ready') distinct

/-- A connection is entered under a key that fits its neighbour. -/
theorem Keyed.enter (keyed : s.Keyed peerAt) (key : peerKey ≠ [])
    (fits : s.isReady r = true → s.Fits peerAt (s.peerOf peerAt r) [r] peerKey) :
    (s.enter address peerKey r).Keyed peerAt := by
  refine keyed.change r (fun _ => rfl) (fun a q other found => ?_) fun a found => ?_ <;>
    simp only [LANTransport.enter, InsertionMap.get?_set] at found ⊢
  · split at found
    · exact absurd (Option.some.inj found).symm other
    · next away =>
      rw [if_neg away]
      exact ⟨found, rfl, id⟩
  · split at found
    · next here =>
      rw [if_pos here]
      exact ⟨peerKey, key, rfl, fits⟩
    · next away =>
      rw [if_neg away]
      obtain ⟨old, known, cached⟩ := keyed.cached a r found
      exact ⟨old, known, cached, fun ready => keyed.fits found cached ready⟩

/-- A dialed connection is established under keys that fit its neighbour. -/
theorem Keyed.connected (keyed : s.Keyed peerAt)
    (fits : ∀ a key, s.connections.get? a = some r → s.addressToPeerKey.get? a = some key →
      s.Fits peerAt (s.peerOf peerAt r) [r] key) : (s.connected r).Keyed peerAt := by
  refine keyed.change r (fun q => congrArg peerAt ?_) (fun a q other found => ⟨found, rfl, fun ready => ?_⟩)
    fun a found => ?_
  · by_cases same : q = r
    · subst same
      simp [LANTransport.connected, alter]
    · simp [LANTransport.connected, alter, Function.update_of_ne same]
  · simpa [LANTransport.connected, alter, isReady, Function.update_of_ne other] using ready
  · obtain ⟨key, known, cached⟩ := keyed.cached a r found
    exact ⟨key, known, cached, fun _ => fits a key found cached⟩

/-- A packet's originator fits the neighbour it is ascribed to. -/
theorem Keyed.ascribed [CaseMapping] (keyed : s.Keyed peerAt) {id : Str}
    (entry : s.connections.get? address = some r)
    (fits : s.isReady r = true → s.Fits peerAt (s.peerOf peerAt r) [r] (peerKeyOf id)) :
    (s.ascribed id r address).Keyed peerAt := by
  have ends (q : Ref) : (s.ascribed id r address).peerOf peerAt q = s.peerOf peerAt q :=
    congrArg peerAt (alter_peerId LANConnection.peerAddress fun _ => rfl)
  refine keyed.change r ends (fun a q other found => ?_) fun a found => ?_
  · have away : a ≠ address := by
      rintro rfl
      exact other (Option.some.inj (found.symm.trans entry))
    refine ⟨found, ?_, fun ready => ascribed_isReady.symm.trans ready⟩
    simp [LANTransport.ascribed, away]
  · simp only [LANTransport.ascribed, InsertionMap.get?_set]
    split
    · exact ⟨peerKeyOf id, by simp [peerKeyOf], rfl, fun ready => fits (ascribed_isReady.symm.trans ready)⟩
    · obtain ⟨key, known, cached⟩ := keyed.cached a r found
      exact ⟨key, known, cached, fun ready => keyed.fits found cached (ascribed_isReady.symm.trans ready)⟩

variable [CaseMapping]

omit [CaseMapping] in
/-- An accepted connection is entered, after the one it replaces has left. -/
theorem Keyed.accept (keyed : s.Keyed peerAt) (allocated : s.Allocated)
    (less : Lessens (s.accepted address) t) (own : t.heap s.nextRef = (s.accepted address).heap s.nextRef)
    (fits : s.Fits peerAt (peerAt address) gone peerKey) (key : peerKey ≠ [])
    (left : ∀ a q, t.connections.get? a = some q → q ∉ gone) :
    (t.enter address peerKey s.nextRef).Keyed peerAt := by
  have accepted : Lessens s (s.accepted address) := (Lessens.made s _).trans (.of_eq rfl rfl rfl rfl rfl)
  have whole := accepted.trans less
  have peer : t.peerOf peerAt s.nextRef = peerAt address := by
    rw [peerOf, own]
    simp [LANTransport.accepted]
  refine (keyed.lessens allocated whole).enter key fun _ => ?_
  rw [peer]
  exact fits.lessens allocated whole fun a q found _ => left a q found

/-- A connection that is dropped leaves the other entries under their keys. -/
theorem Lessens.ascribed_drop (entry : s.connections.get? address = some r) (id : Str) :
    Lessens s ((s.ascribed id r address).removeConnectionReferences r) := by
  have removed := Lessens.remove (s.ascribed id r address) r
  refine ⟨le_rfl, fun q _ => ?_, fun q old ready => ?_, removed.entered, removed.registered, fun a q found => ?_⟩
  · exact alter_peerId LANConnection.peerAddress fun _ => rfl
  · exact ascribed_isReady.symm.trans (removed.ready q old ready)
  · obtain ⟨before, other⟩ := removeConnectionReferences_connections.mp found
    have away : a ≠ address := by
      rintro rfl
      exact other (Option.some.inj (before.symm.trans entry))
    rw [removed.cached a q found]
    simp [LANTransport.ascribed, away]

/-- Dropping another connection may come before the packet's originator is ascribed. -/
theorem Lessens.drop_ascribed {drop : Ref} (id : Str) :
    Lessens ((s.removeConnectionReferences drop).ascribed id r address)
      ((s.ascribed id r address).removeConnectionReferences drop) := by
  have removed := Lessens.remove (s.ascribed id r address) drop
  refine ⟨le_rfl, fun _ _ => rfl, fun _ _ => fun h => h, fun _ _ => fun h => h, fun _ _ => fun h => h, fun a q found => ?_⟩
  rw [removed.cached a q found]
  simp only [LANTransport.ascribed, InsertionMap.get?_set]
  split
  · rfl
  · exact ((Lessens.remove s drop).cached a q found).symm

/-- A connection gets the originator's key, and its duplicate leaves. -/
theorem Keyed.drop (keyed : s.Keyed peerAt) (allocated : s.Allocated) {id : Str} {drop : Ref}
    (entry : s.connections.get? address = some r)
    (fits : drop ≠ r → s.Fits peerAt (s.peerOf peerAt r) [r, drop] (peerKeyOf id)) :
    ((s.ascribed id r address).removeConnectionReferences drop).Keyed peerAt := by
  by_cases same : drop = r
  · rw [same]
    exact keyed.lessens allocated (.ascribed_drop entry id)
  · have removed := Lessens.remove s drop
    have stays : (s.removeConnectionReferences drop).connections.get? address = some r :=
      removeConnectionReferences_connections.mpr ⟨entry, Ne.symm same⟩
    have fitting : (s.removeConnectionReferences drop).Fits peerAt (s.peerOf peerAt r) [r] (peerKeyOf id) :=
      (fits same).lessens allocated removed fun a q found other => by
        simpa [(removeConnectionReferences_connections.mp found).2] using other
    have left := (keyed.lessens allocated removed).ascribed stays fun _ => fitting
    have allocated' : ((s.removeConnectionReferences drop).ascribed id r address).Allocated :=
      ⟨(allocated.lessens removed).entered, (allocated.lessens removed).registered⟩
    exact left.lessens allocated' (.drop_ascribed id)

variable [Python.DigitTable]

end Steps
section Nodes
attribute [local instance] asciiCase Python.asciiDigits

end Nodes
end LANTransport
end Bitchat.Lan
