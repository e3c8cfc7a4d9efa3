import Bitchat.App.Nicknames
import Bitchat.Data.Run

/-! Whether two peers can have one nickname. A peer can take that of another only by being
discovered under the other's id with white space around it. -/
namespace Bitchat.App
open Crypto Protocol Mesh Str

/-- What is used of lower-casing: it leaves hexadecimal digits, and no text vanishes. -/
class LawfulNames [CaseMapping] : Prop extends LawfulLower where
  lower_eq_nil : ∀ s, CaseMapping.lower s = [] → s = []
  lower_hex : ∀ data, CaseMapping.lower (hex data) = hex data

namespace NamedCoordinator
variable {τ : Type} [CaseMapping]

/-- No two peers have the same nickname. -/
def Unique (c : NamedCoordinator τ) : Prop :=
  ∀ p q name other, c.peerNicknames.get? p = some name → c.peerNicknames.get? q = some other →
    foldName name = foldName other → p = q

/-- The ids with nicknames are in lower case, and the nicknames are not blank. -/
structure Tidy (c : NamedCoordinator τ) : Prop where
  lowered : ∀ p name, c.peerNicknames.get? p = some name → CaseMapping.lower p = p
  visible : ∀ p name, c.peerNicknames.get? p = some name → strip name ≠ []

/-- The id of a peer is not in its stripped form, and the peer with that id has the nickname, which
is neither blank nor that of this node. -/
def Impersonates (peer name : Str) (c : NamedCoordinator τ) : Prop :=
  foldName peer ≠ peer ∧ strip name ≠ [] ∧ foldName name ≠ foldName c.nickname ∧
    ∃ held, c.peerNicknames.get? (foldName peer) = some held ∧ foldName held = foldName name

/-- A stored nickname is not blank and is not that of this node. -/
def Proper (c : NamedCoordinator τ) (stored : Option (Str × Str)) : Prop :=
  ∀ peer name, stored = some (peer, name) → strip name ≠ [] ∧ foldName name ≠ foldName c.nickname

section Offers
variable {c d : NamedCoordinator τ} {peer name : Str}

theorem foldName_nil [LawfulNames] : foldName [] = [] := LawfulLower.lower_nil

theorem not_spoofed_iff [LawfulNames] : ¬ c.isNicknameSpoofed peer name ↔ strip name ≠ [] ∧
    foldName name ≠ foldName c.nickname ∧ ∀ q other, c.peerNicknames.get? q = some other →
      foldName other = foldName name → CaseMapping.lower q = foldName peer := by
  simp only [isNicknameSpoofed, decide_eq_true_eq, not_or, not_and, not_exists]
  constructor
  · rintro ⟨-, visible, own, others⟩
    refine ⟨visible, fun same => ?_, fun q other found same => ?_⟩
    · by_cases unnamed : c.nickname = []
      · rw [unnamed, foldName_nil] at same
        exact visible (LawfulNames.lower_eq_nil _ same)
      · exact own unnamed same
    · by_contra different
      exact others (q, other) (InsertionMap.get?_eq_some.mp found) different same
  · rintro ⟨visible, own, others⟩
    refine ⟨?_, visible, fun _ => own, fun e member different same => ?_⟩
    · rintro rfl
      exact visible rfl
    · exact different (others e.1 e.2 (InsertionMap.get?_eq_some_of_mem member) same)

theorem offerNickname_proper [LawfulNames] : c.Proper (c.offerNickname peer name).1 := by
  intro p n stored
  unfold offerNickname at stored
  split at stored
  · cases stored
  · next accepted =>
    cases stored
    obtain ⟨visible, own, -⟩ := not_spoofed_iff.mp accepted
    exact ⟨visible, own⟩

theorem offerNickname_tidy [LawfulNames] (tidy : c.Tidy) (lowered : CaseMapping.lower peer = peer) :
    (c.offerNickname peer name).2.Tidy := by
  unfold offerNickname
  split
  · exact tidy
  · next accepted =>
    have visible := (not_spoofed_iff.mp accepted).1
    constructor
    · intro p n found
      simp only [InsertionMap.get?_set] at found
      split at found
      · next same => exact same ▸ lowered
      · exact tidy.lowered p n found
    · intro p n found
      simp only [InsertionMap.get?_set] at found
      split at found
      · cases found
        exact visible
      · exact tidy.visible p n found

/-- An offer leaves the nicknames unique exactly when it impersonates no one. -/
theorem offerNickname_unique [LawfulNames] (unique : c.Unique) (tidy : c.Tidy) :
    (c.offerNickname peer name).2.Unique ↔ ¬ c.Impersonates peer name := by
  have folded : CaseMapping.lower (foldName peer) = foldName peer := LawfulLower.lower_lower _
  unfold offerNickname
  by_cases spoofed : c.isNicknameSpoofed peer name
  · rw [if_pos spoofed]
    refine iff_of_true unique ?_
    rintro ⟨-, visible, own, held, found, same⟩
    refine absurd spoofed (not_spoofed_iff.mpr ⟨visible, own, fun q other found' same' => ?_⟩)
    rw [unique q (foldName peer) other held found' found (same'.trans same.symm), folded]
  · rw [if_neg spoofed]
    obtain ⟨visible, own, others⟩ := not_spoofed_iff.mp spoofed
    constructor
    · rintro distinct ⟨twin, -, -, held, found, same⟩
      apply twin
      apply distinct (foldName peer) peer held name _ _ same
      · simp [twin, found]
      · simp
    · intro alone p q n m first second same
      have free : ∀ p n, p ≠ peer → c.peerNicknames.get? p = some n → foldName n ≠ foldName name := by
        intro p n away found same
        have twin := others p n found same
        rw [tidy.lowered p n found] at twin
        exact alone ⟨twin ▸ away, visible, own, n, twin ▸ found, same⟩
      simp only [InsertionMap.get?_set] at first second
      split at first
      · next here =>
        split at second
        · next here' => exact here.trans here'.symm
        · next away =>
          cases first
          exact absurd same.symm (free q m away second)
      · next away =>
        split at second
        · cases second
          exact absurd same (free p n away first)
        · exact unique p q n m first second same

/-- Fewer nicknames are unique and tidy as well. -/
theorem Unique.shrink (unique : c.Unique)
    (origin : ∀ p n, d.peerNicknames.get? p = some n → c.peerNicknames.get? p = some n) : d.Unique :=
  fun p q n m first second => unique p q n m (origin p n first) (origin q m second)

theorem Tidy.shrink (tidy : c.Tidy)
    (origin : ∀ p n, d.peerNicknames.get? p = some n → c.peerNicknames.get? p = some n) : d.Tidy :=
  ⟨fun p n found => tidy.lowered p n (origin p n found),
   fun p n found => tidy.visible p n (origin p n found)⟩

end Offers

/-- What an event makes of the nicknames: the one it stores is proper, all others were there before,
and they stay unique exactly under a condition. -/
structure Keeps (c : NamedCoordinator τ) (condition : Prop)
    (named : Option (Str × Str) × NamedCoordinator τ) : Prop where
  proper : c.Proper named.1
  entered : ∀ peer name, named.1 = some (peer, name) → named.2.peerNicknames.get? peer = some name
  origin : ∀ peer name, named.2.peerNicknames.get? peer = some name →
    c.peerNicknames.get? peer = some name ∨ named.1 = some (peer, name)
  tidy : c.Tidy → named.2.Tidy
  unique : c.Unique → c.Tidy → (named.2.Unique ↔ condition)

section Events
variable {c d : NamedCoordinator τ} {cfg : MeshSettings} {packet : BitchatPacket}
  {peer name address peerId owner : Str} {found : Option Str}

/-- Without a nickname to store some of the old ones stay. -/
theorem keeps_shrunk (origin : ∀ p n, d.peerNicknames.get? p = some n → c.peerNicknames.get? p = some n) :
    c.Keeps True (none, d) where
  proper _ _ stored := by cases stored
  entered _ _ stored := by cases stored
  origin peer name found := Or.inl (origin peer name found)
  tidy tidy := tidy.shrink origin
  unique unique _ := iff_of_true (unique.shrink origin) trivial

theorem offerNickname_keeps [LawfulNames] (c : NamedCoordinator τ) (name : Str)
    (lowered : CaseMapping.lower peer = peer) :
    c.Keeps (¬ c.Impersonates peer name) (c.offerNickname peer name) where
  proper := offerNickname_proper
  entered p n stored := by
    unfold offerNickname at stored ⊢
    split at stored
    · cases stored
    · next accepted =>
      cases stored
      rw [if_neg accepted]
      simp
  origin p n found := by
    unfold offerNickname at found ⊢
    split at found
    · exact Or.inl found
    · next accepted =>
      rw [if_neg accepted]
      simp only [InsertionMap.get?_set] at found
      split at found
      · next same =>
        cases found
        exact Or.inr (same ▸ rfl)
      · exact Or.inl found
  tidy tidy := offerNickname_tidy tidy lowered
  unique unique tidy := offerNickname_unique unique tidy

/-- What is kept since some nicknames were deleted is kept. -/
theorem Keeps.after_shrink {condition : Prop} {named : Option (Str × Str) × NamedCoordinator τ}
    (keeps : d.Keeps condition named) (nickname : d.nickname = c.nickname)
    (origin : ∀ p n, d.peerNicknames.get? p = some n → c.peerNicknames.get? p = some n) :
    c.Keeps condition named where
  proper p n stored := by
    obtain ⟨visible, own⟩ := keeps.proper p n stored
    exact ⟨visible, nickname ▸ own⟩
  entered := keeps.entered
  origin p n found := (keeps.origin p n found).imp (origin p n) id
  tidy tidy := keeps.tidy (tidy.shrink origin)
  unique unique tidy := keeps.unique (unique.shrink origin) (tidy.shrink origin)

/-- An announcement keeps the nicknames unique. -/
theorem hearPacket_keeps [LawfulNames] [TextDecoder] : c.Keeps True (c.hearPacket cfg packet) := by
  unfold hearPacket
  simp only
  split
  · exact keeps_shrunk fun _ _ found => found
  · split
    · have offer := offerNickname_keeps c (strip (TextDecoder.decode packet.payload))
        (LawfulNames.lower_hex packet.senderId)
      refine { offer with unique := fun unique tidy => (offer.unique unique tidy).trans ?_ }
      refine iff_of_true ?_ trivial
      rintro ⟨other, -⟩
      exact other (by rw [foldName, strip_hex, LawfulNames.lower_hex])
    · exact keeps_shrunk fun _ _ found => found

omit [CaseMapping] in
theorem displaceOwner_get? : (c.displaceOwner address peer).peerNicknames.get? owner = some name ↔
    c.peerNicknames.get? owner = some name ∧ ¬ c.Displaced address peer owner := by
  unfold displaceOwner Displaced
  cases c.mesh.addressToPeerId.get? address with
  | none => simp
  | some reached =>
    simp only [Option.some.injEq]
    split
    · next displaced =>
      rw [InsertionMap.get?_erase]
      by_cases same : owner = reached
      · subst same
        simp [displaced]
      · simp [same, Ne.symm same]
    · next kept =>
      constructor
      · intro found
        refine ⟨found, ?_⟩
        rintro ⟨rfl, displaced⟩
        exact kept displaced
      · exact And.left

omit [CaseMapping] in
theorem displaceOwner_nickname : (c.displaceOwner address peer).nickname = c.nickname := by
  unfold displaceOwner
  split
  · rfl
  · split <;> rfl

/-- The discovered peer is entered under another id than it is tested under, and keeps that peer's
nickname for its own. -/
def Borrows (cfg : MeshSettings) (address peerId : Str) (name : Option Str) (c : NamedCoordinator τ) : Prop :=
  CaseMapping.lower peerId ≠ [] ∧ CaseMapping.lower peerId ≠ CaseMapping.lower cfg.localPeerIdHex ∧
    ¬ c.Displaced address (CaseMapping.lower peerId) (foldName (CaseMapping.lower peerId)) ∧
    ∃ n, name = some n ∧ c.Impersonates (CaseMapping.lower peerId) n

theorem displaceOwner_impersonates : (c.displaceOwner address peer).Impersonates peer name ↔
    c.Impersonates peer name ∧ ¬ c.Displaced address peer (foldName peer) := by
  unfold Impersonates
  rw [displaceOwner_nickname]
  simp only [displaceOwner_get?]
  tauto

/-- A discovery keeps the nicknames unique exactly when the peer borrows none. -/
theorem discoverName_keeps [LawfulNames] :
    c.Keeps (¬ c.Borrows cfg address peerId found) (c.discoverName cfg address peerId found) := by
  have fewer : ∀ p n, (c.displaceOwner address (CaseMapping.lower peerId)).peerNicknames.get? p = some n →
      c.peerNicknames.get? p = some n := fun _ _ kept => (displaceOwner_get?.mp kept).1
  have free (none : ¬ c.Borrows cfg address peerId found) {named : Option (Str × Str) × NamedCoordinator τ}
      (keeps : c.Keeps True named) : c.Keeps (¬ c.Borrows cfg address peerId found) named :=
    { keeps with unique := fun unique tidy => (keeps.unique unique tidy).trans (iff_of_true trivial none) }
  unfold discoverName
  simp only
  split
  · next ignored =>
    refine free ?_ (keeps_shrunk fun _ _ found => found)
    rintro ⟨named, foreign, -⟩
    exact ignored.elim named foreign
  · next entered =>
    obtain ⟨named, foreign⟩ := not_or.mp entered
    cases given : found.filter (· ≠ []) with
    | none =>
      refine free ?_ (keeps_shrunk fewer)
      rintro ⟨-, -, -, n, rfl, -, visible, -⟩
      refine absurd (Option.filter_eq_none_iff.mp given n rfl) ?_
      rintro blank
      have empty : n = [] := by simpa using blank
      exact visible (by rw [empty]; rfl)
    | some n =>
      obtain ⟨rfl, -⟩ := Option.filter_eq_some_iff.mp given
      have offer := offerNickname_keeps (c.displaceOwner address (CaseMapping.lower peerId)) n
        (LawfulLower.lower_lower peerId)
      have kept := offer.after_shrink displaceOwner_nickname fewer
      refine { kept with unique := fun unique tidy => (kept.unique unique tidy).trans (not_congr ?_) }
      rw [displaceOwner_impersonates]
      simp only [Borrows, named, foreign, Option.some.injEq, exists_eq_left', ne_eq, not_false_eq_true,
        true_and]
      exact And.comm

/-- What keeps the nicknames keeps them also with what happens elsewhere. -/
theorem Keeps.elsewhere {condition : Prop} {named : Option (Str × Str) × NamedCoordinator τ}
    (keeps : c.Keeps condition named) (mesh : MeshCoordinator τ) :
    c.Keeps condition (named.1, { named.2 with mesh }) :=
  ⟨keeps.proper, keeps.entered, keeps.origin,
    fun tidy => ⟨(keeps.tidy tidy).lowered, (keeps.tidy tidy).visible⟩, keeps.unique⟩

end Events

section Runs
variable [BaseTransport τ] [Primitives] [TextDecoder] [LawfulNames] {cfg : MeshSettings}
  {c d start : NamedCoordinator τ} {label : Named τ} {history : List (Taken (NamedCoordinator τ) (Named τ))}

/-- The discovery of a peer that borrows another's nickname. -/
def Borrowing (cfg : MeshSettings) (c : NamedCoordinator τ) : NameEvent τ → Prop
  | .discovered address peerId name => c.Borrows cfg address peerId name
  | _ => False

omit [BaseTransport τ] [Primitives] in
theorem namesAfter_keeps (event : MeshEvent τ) : c.Keeps True (c.namesAfter cfg event) := by
  have same : c.Keeps True (none, c) := keeps_shrunk fun _ _ found => found
  cases event with
  | discovered address peerId =>
    have keeps : c.Keeps _ (c.discoverName cfg address peerId none) := discoverName_keeps
    refine { keeps with unique := fun unique tidy => (keeps.unique unique tidy).trans ?_ }
    refine iff_of_true ?_ trivial
    rintro ⟨-, -, -, n, none, -⟩
    cases none
  | run i now writes =>
    simp only [namesAfter]
    split
    · exact hearPacket_keeps
    · exact same
  | resetSessionState => exact keeps_shrunk fun p n found => by simp at found
  | incoming | send | connected | disconnected | prune | transport | running | stop => exact same

/-- A step keeps the nicknames unique exactly when it lets no peer borrow one. -/
theorem step_keeps (step : Step cfg c label d) :
    c.Keeps (¬ c.Borrowing cfg label.event) (label.stored, d) := by
  have free (keeps : c.Keeps True (label.stored, d)) (none : ¬ c.Borrowing cfg label.event) :
      c.Keeps (¬ c.Borrowing cfg label.event) (label.stored, d) :=
    { keeps with unique := fun unique tidy => (keeps.unique unique tidy).trans (iff_of_true trivial none) }
  obtain ⟨event, stored⟩ := label
  obtain ⟨fuel, performed⟩ := step
  cases event with
  | mesh event =>
    simp only [perform] at performed
    obtain ⟨after, -, same⟩ := Option.map_eq_some_iff.mp performed
    obtain ⟨rfl, rfl⟩ := Prod.mk.inj same
    exact free ((namesAfter_keeps event).elsewhere after.2) id
  | discovered address peerId name =>
    simp only [perform] at performed
    obtain ⟨after, -, same⟩ := Option.map_eq_some_iff.mp performed
    obtain ⟨rfl, rfl⟩ := Prod.mk.inj same
    exact discoverName_keeps.elsewhere after.2
  | setNickname nickname =>
    obtain ⟨rfl, rfl⟩ := Prod.mk.inj (Option.some.inj performed)
    exact free (keeps_shrunk fun _ _ found => found) id

/-- In a run from no nicknames they are unique after every event exactly when no discovery lets a
peer borrow one. No nickname is ever blank, and the nicknames are those that events stored, each of
them other than this node's at the time. -/
theorem nicknames_unique (run : Run (Step cfg) start history c) (fresh : start.peerNicknames = .empty) :
    ((∀ e ∈ history, e.after.Unique) ↔ ∀ e ∈ history, ¬ e.before.Borrowing cfg e.label.event) ∧
    (∀ peer name, c.peerNicknames.get? peer = some name → strip name ≠ []) ∧
    ∀ e ∈ history, ∀ peer name,
      (e.label.stored = some (peer, name) → e.after.peerNicknames.get? peer = some name ∧
        strip name ≠ [] ∧ foldName name ≠ foldName e.before.nickname) ∧
      (e.after.peerNicknames.get? peer = some name →
        e.before.peerNicknames.get? peer = some name ∨ e.label.stored = some (peer, name)) := by
  have initial : start.Unique ∧ start.Tidy := by
    refine ⟨?_, ?_, ?_⟩
    · intro p q n m found
      simp [fresh] at found
    all_goals
      intro p n found
      simp [fresh] at found
  refine ⟨?_, ?_, ?_⟩
  · apply run.meets_iff (P := fun c => c.Unique ∧ c.Tidy) (Q := fun _ _ d => d.Unique)
      (C := fun c label => ¬ c.Borrowing cfg label.event) initial
    · rintro c label d ⟨unique, tidy⟩ step
      exact (step_keeps step).unique unique tidy
    · rintro c label d ⟨unique, tidy⟩ condition step
      exact ⟨((step_keeps step).unique unique tidy).mpr condition, (step_keeps step).tidy tidy⟩
  · have tidy : c.Tidy := run.invariant initial.2 fun tidy step => (step_keeps step).tidy tidy
    exact tidy.visible
  · intro e member peer name
    have keeps := step_keeps (run.stepped member)
    exact ⟨fun stored => ⟨keeps.entered peer name stored, keeps.proper peer name stored⟩,
      keeps.origin peer name⟩

end Runs
end NamedCoordinator
end Bitchat.App

namespace Bitchat.App.NamedCoordinator
open Crypto Protocol Mesh Lan Str Modular
attribute [local instance] Modular.primitives asciiCase

/-- Bytes of ASCII text. -/
@[reducible] def asciiDecoder : TextDecoder where
  decode data := data.map fun b => Char.ofNat b.toNat

attribute [local instance] asciiDecoder

theorem asciiCase_lawfulNames : LawfulNames where
  toLawfulLower := asciiCase_lawfulLower
  lower_eq_nil _ empty := List.map_eq_nil_iff.mp empty
  lower_hex := asciiCase_lower_hex

/-- A coordinator that was just made. -/
def newcomer : NamedCoordinator LANTransport where
  mesh := { transport := lanNode }
  nickname := "Alice".toList

def bobId : Str := "fedcba9876543210".toList
def bobDiscovered : NameEvent LANTransport :=
  .discovered "192.168.1.60:41236".toList bobId (some "Bob".toList)

/-- The discovery of a peer under another id, with the same nickname. -/
def rediscovered (peerId : Str) : NameEvent LANTransport :=
  .discovered "192.168.1.61:41236".toList peerId (some "bob".toList)

/-- What comes of an event. -/
def after (event : NameEvent LANTransport) (c : NamedCoordinator LANTransport) :
    Option (Str × Str) × NamedCoordinator LANTransport :=
  (c.perform MeshCoordinator.courierSettings 9 event).getD (none, c)

theorem step_after (event : NameEvent LANTransport) {c : NamedCoordinator LANTransport}
    (ends : (c.perform MeshCoordinator.courierSettings 9 event).isSome = true) :
    Step MeshCoordinator.courierSettings c ⟨event, (after event c).1⟩ (after event c).2 := by
  obtain ⟨result, found⟩ := Option.isSome_iff_exists.mp ends
  refine ⟨9, ?_⟩
  simp only [after, found, Option.getD_some]

/-- A peer with another id does not get the nickname of the first. -/
theorem stranger_refused :
    (after (rediscovered "0123456789abcdef".toList) (after bobDiscovered newcomer).2).2.Unique := by
  have : LawfulNames := asciiCase_lawfulNames
  have run : Run (Step MeshCoordinator.courierSettings) newcomer _ _ :=
    (Run.nil.snoc (step_after bobDiscovered (by decide +kernel))).snoc
      (step_after (rediscovered "0123456789abcdef".toList) (by decide +kernel))
  refine (nicknames_unique run rfl).1.mpr ?_ _ (List.mem_append_right _ (List.mem_singleton_self _))
  intro e member
  rw [List.nil_append, List.singleton_append, List.mem_pair] at member
  rcases member with rfl | rfl
  · rintro ⟨-, -, -, n, -, other, -⟩
    exact absurd other (by decide +kernel)
  · rintro ⟨-, -, -, n, -, other, -⟩
    exact absurd other (by decide +kernel)

/-- One whose id is that of the first after a blank does. -/
theorem blank_before_id : ∃ history c, Run (Step MeshCoordinator.courierSettings) newcomer history c ∧
    newcomer.peerNicknames = .empty ∧ ¬ c.Unique := by
  have run : Run (Step MeshCoordinator.courierSettings) newcomer _ _ :=
    (Run.nil.snoc (step_after bobDiscovered (by decide +kernel))).snoc
      (step_after (rediscovered (' ' :: bobId)) (by decide +kernel))
  refine ⟨_, _, run, rfl, fun unique => ?_⟩
  have same := unique bobId (' ' :: bobId) "Bob".toList "bob".toList (by decide +kernel) (by decide +kernel)
    (by decide +kernel)
  exact absurd same (by decide)

end Bitchat.App.NamedCoordinator
