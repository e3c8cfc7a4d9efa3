import Bitchat.Data.InsertionMap
import Bitchat.Data.Text
import Mathlib.Data.List.Find

/-! The peer that a typed target of a direct message stands for. The first peer of the table whose
nickname is the target or whose id starts with it gets the message, whoever else matches. -/
namespace Bitchat.Tui
open Str

/-- What becomes of a direct message: it goes to a peer, or an error is shown. -/
inductive Sending where
  | sent (peerId text : Str)
  | refused (message : Str)
deriving DecidableEq

section
variable [CaseMapping]

def cleanTarget (targetPeer : Str) : Str := CaseMapping.lower (targetPeer.dropWhile (· = '@'))

/-- The nickname of the entry is the target, or its id starts with it. -/
def matchesTarget (target : Str) (e : Str × Str) : Bool :=
  CaseMapping.lower e.2 = target ∨ target <+: CaseMapping.lower e.1

/-- The peer that a target stands for; an empty id counts as none. -/
def resolvedPid (peerNicknames : InsertionMap Str Str) (targetPeer : Str) : Option Str :=
  let target := cleanTarget targetPeer
  let found := match peerNicknames.entries.find? (matchesTarget target) with
    | some e => some e.1
    | none => if (fromHex target).isSome then some target else none
  found.filter (· ≠ [])

def sendDirectMessage (peerNicknames : InsertionMap Str Str) (targetPeer dmText : Str) : Sending :=
  match resolvedPid peerNicknames targetPeer with
  | some pid => .sent pid dmText
  | none => .refused ("Cannot send DM: peer '".toList ++ targetPeer ++ "' not found.".toList)

/-- The peer that the message goes to. -/
def Sending.recipient : Sending → Option Str
  | .sent peerId _ => some peerId
  | .refused _ => none

/-- The message goes where it should: to the peer of that nickname, else to the one peer whose id
starts with the target, and to no peer for an empty or ambiguous target. -/
structure WellResolved (peerNicknames : InsertionMap Str Str) (targetPeer : Str) (sending : Sending) :
    Prop where
  nickname : ∀ e ∈ peerNicknames.entries, CaseMapping.lower e.2 = cleanTarget targetPeer →
    sending.recipient = some e.1
  byId : (∀ e ∈ peerNicknames.entries, CaseMapping.lower e.2 ≠ cleanTarget targetPeer) →
    ∀ e ∈ peerNicknames.entries, sending.recipient = some e.1 → cleanTarget targetPeer ≠ [] ∧
      cleanTarget targetPeer <+: CaseMapping.lower e.1 ∧ ∀ other ∈ peerNicknames.entries,
        cleanTarget targetPeer <+: CaseMapping.lower other.1 → other.1 = e.1
  nobody : (∀ e ∈ peerNicknames.entries, CaseMapping.lower e.2 ≠ cleanTarget targetPeer) →
    (cleanTarget targetPeer = [] ∨ ∃ e ∈ peerNicknames.entries, ∃ f ∈ peerNicknames.entries, e.1 ≠ f.1 ∧
      cleanTarget targetPeer <+: CaseMapping.lower e.1 ∧ cleanTarget targetPeer <+: CaseMapping.lower f.1) →
    sending.recipient = none

/-- The message goes where it should, and to the same peer in whatever order the peers stand. -/
def Unambiguous (peerNicknames : InsertionMap Str Str) (targetPeer dmText : Str) : Prop :=
  ∀ table : InsertionMap Str Str, table.entries.Perm peerNicknames.entries →
    WellResolved table targetPeer (sendDirectMessage table targetPeer dmText) ∧
      sendDirectMessage table targetPeer dmText = sendDirectMessage peerNicknames targetPeer dmText

variable {peerNicknames : InsertionMap Str Str} {targetPeer dmText : Str} {e : Str × Str}

theorem recipient_eq : (sendDirectMessage peerNicknames targetPeer dmText).recipient =
    resolvedPid peerNicknames targetPeer := by
  unfold sendDirectMessage
  cases resolvedPid peerNicknames targetPeer <;> rfl

theorem resolvedPid_ne_nil : resolvedPid peerNicknames targetPeer ≠ some [] := by
  intro empty
  have kept := (Option.filter_eq_some_iff.mp empty).2
  simp at kept

theorem resolvedPid_found
    (found : peerNicknames.entries.find? (matchesTarget (cleanTarget targetPeer)) = some e) :
    resolvedPid peerNicknames targetPeer = if e.1 = [] then none else some e.1 := by
  by_cases empty : e.1 = []
  · simp [resolvedPid, found, empty]
  · simp [resolvedPid, found, empty]

theorem matches_nil (e : Str × Str) : matchesTarget [] e = true := by simp [matchesTarget]

theorem matches_nickname (same : CaseMapping.lower e.2 = cleanTarget targetPeer) :
    matchesTarget (cleanTarget targetPeer) e = true := by simp [matchesTarget, same]

theorem matches_id (start : cleanTarget targetPeer <+: CaseMapping.lower e.1) :
    matchesTarget (cleanTarget targetPeer) e = true := by simp [matchesTarget, start]

/-- A peer that matches gets the message in a table where it is the first. -/
theorem resolvedPid_first (member : e ∈ peerNicknames.entries)
    (hit : matchesTarget (cleanTarget targetPeer) e = true) :
    ∃ table : InsertionMap Str Str, table.entries.Perm peerNicknames.entries ∧
      resolvedPid table targetPeer = if e.1 = [] then none else some e.1 := by
  obtain ⟨before, after, whole⟩ := List.append_of_mem member
  have perm : (e :: (before ++ after)).Perm peerNicknames.entries := by
    rw [whole]
    exact List.perm_middle.symm
  have nodup : ((e :: (before ++ after)).map Prod.fst).Nodup :=
    (perm.map Prod.fst).nodup_iff.mpr peerNicknames.nodup
  exact ⟨⟨_, nodup⟩, perm, resolvedPid_found (List.find?_cons_of_pos hit)⟩

/-- A peer of the table gets the message only if it is the first to match. -/
theorem found_of_resolvedPid [LawfulLower] (member : e ∈ peerNicknames.entries)
    (sent : resolvedPid peerNicknames targetPeer = some e.1) :
    ∃ f, peerNicknames.entries.find? (matchesTarget (cleanTarget targetPeer)) = some f ∧ f.1 = e.1 := by
  cases found : peerNicknames.entries.find? (matchesTarget (cleanTarget targetPeer)) with
  | some f =>
    rw [resolvedPid_found found] at sent
    split at sent
    · cases sent
    · exact ⟨f, rfl, Option.some.inj sent⟩
  | none =>
    -- the target itself is taken for an id: had a peer that id, it would match
    have itself : e.1 = cleanTarget targetPeer := by
      simp only [resolvedPid, found, Option.filter_eq_some_iff] at sent
      obtain ⟨whole, _⟩ := sent
      split at whole
      · exact (Option.some.inj whole).symm
      · cases whole
    have again : CaseMapping.lower (cleanTarget targetPeer) = cleanTarget targetPeer :=
      LawfulLower.lower_lower _
    have start : cleanTarget targetPeer <+: CaseMapping.lower e.1 := by
      rw [itself, again]
    exact absurd (matches_id start) (List.find?_eq_none.mp found e member)

/-- One peer at most matches the target. It has an id where its nickname is the target; where it is
not, the target is not empty. -/
structure OneMatch (peerNicknames : InsertionMap Str Str) (targetPeer : Str) : Prop where
  only : ∀ e ∈ peerNicknames.entries, ∀ f ∈ peerNicknames.entries,
    matchesTarget (cleanTarget targetPeer) e = true →
      matchesTarget (cleanTarget targetPeer) f = true → e = f
  identified : ∀ e ∈ peerNicknames.entries, CaseMapping.lower e.2 = cleanTarget targetPeer → e.1 ≠ []
  nameless : cleanTarget targetPeer = [] → ∀ e ∈ peerNicknames.entries, e.1 ≠ [] →
    CaseMapping.lower e.2 = []

theorem OneMatch.perm {table : InsertionMap Str Str} (one : OneMatch peerNicknames targetPeer)
    (perm : table.entries.Perm peerNicknames.entries) : OneMatch table targetPeer := by
  have entries {e : Str × Str} (member : e ∈ table.entries) : e ∈ peerNicknames.entries :=
    perm.mem_iff.mp member
  constructor
  · exact fun e member f known => one.only e (entries member) f (entries known)
  · exact fun e member => one.identified e (entries member)
  · exact fun empty e member => one.nameless empty e (entries member)

theorem OneMatch.wellResolved [LawfulLower] (one : OneMatch peerNicknames targetPeer) :
    WellResolved peerNicknames targetPeer (sendDirectMessage peerNicknames targetPeer dmText) := by
  constructor
  · intro e member same
    rw [recipient_eq]
    cases found : peerNicknames.entries.find? (matchesTarget (cleanTarget targetPeer)) with
    | none => exact absurd (matches_nickname same) (List.find?_eq_none.mp found e member)
    | some f =>
      have entry := List.mem_of_find?_eq_some found
      cases one.only e member f entry (matches_nickname same) (List.find?_some found)
      rw [resolvedPid_found found, if_neg (one.identified e member same)]
  · intro others e member sent
    rw [recipient_eq] at sent
    obtain ⟨f, found, same⟩ := found_of_resolvedPid member sent
    have entry := List.mem_of_find?_eq_some found
    have hit := List.find?_some found
    have start : cleanTarget targetPeer <+: CaseMapping.lower f.1 := by
      simpa [matchesTarget, others f entry] using hit
    refine ⟨fun empty => others e member ?_, same ▸ start, fun other known starts => ?_⟩
    · rw [one.nameless empty e member fun none => resolvedPid_ne_nil (none ▸ sent), empty]
    · rw [← same, one.only other known f entry (matches_id starts) hit]
  · rintro others (empty | ⟨e, member, f, known, apart, starts, starts'⟩)
    · rw [recipient_eq]
      cases found : peerNicknames.entries.find? (matchesTarget (cleanTarget targetPeer)) with
      | none =>
        simp only [resolvedPid, found]
        rw [empty]
        rfl
      | some f =>
        have entry := List.mem_of_find?_eq_some found
        have nothing : f.1 = [] := by
          by_contra identified
          exact others f entry (by rw [one.nameless empty f entry identified, empty])
        rw [resolvedPid_found found, if_pos nothing]
    · exact absurd (congrArg Prod.fst (one.only e member f known (matches_id starts) (matches_id starts'))) apart

/-- A message goes where it should, in every order of the peers, if and only if one peer at most
matches its target. -/
theorem unambiguous_iff [LawfulLower] (peerNicknames : InsertionMap Str Str) (targetPeer dmText : Str) :
    Unambiguous peerNicknames targetPeer dmText ↔ OneMatch peerNicknames targetPeer := by
  constructor
  · intro unambiguous
    have alike (table : InsertionMap Str Str) (perm : table.entries.Perm peerNicknames.entries) :
        resolvedPid table targetPeer = resolvedPid peerNicknames targetPeer := by
      rw [← recipient_eq, ← recipient_eq, (unambiguous table perm).2]
    have here := (unambiguous peerNicknames (List.Perm.refl _)).1
    have first {e : Str × Str} (member : e ∈ peerNicknames.entries)
        (hit : matchesTarget (cleanTarget targetPeer) e = true) :
        resolvedPid peerNicknames targetPeer = if e.1 = [] then none else some e.1 := by
      obtain ⟨table, perm, resolved⟩ := resolvedPid_first member hit
      rw [← alike table perm, resolved]
    have only : ∀ e ∈ peerNicknames.entries, ∀ f ∈ peerNicknames.entries,
        matchesTarget (cleanTarget targetPeer) e = true →
          matchesTarget (cleanTarget targetPeer) f = true → e = f := by
      intro e member f known hit hit'
      have same := (first member hit).symm.trans (first known hit')
      have ids : e.1 = f.1 := by
        split at same <;> split at same <;> simp_all
      exact List.inj_on_of_nodup_map peerNicknames.nodup member known ids
    constructor
    · exact only
    · intro e member same none
      have resolved := here.nickname e member same
      rw [recipient_eq, none] at resolved
      exact resolvedPid_ne_nil resolved
    · intro empty e member identified
      by_contra named
      have hit : ∀ f, matchesTarget (cleanTarget targetPeer) f = true := fun f => empty ▸ matches_nil f
      have others : ∀ f ∈ peerNicknames.entries, CaseMapping.lower f.2 ≠ cleanTarget targetPeer := by
        intro f known same
        rw [only f known e member (hit f) (hit e), empty] at same
        exact named same
      have nobody := here.nobody others (.inl empty)
      rw [recipient_eq, first member (hit e), if_neg identified] at nobody
      cases nobody
  · intro one table perm
    refine ⟨(one.perm perm).wellResolved, ?_⟩
    have same : table.entries.find? (matchesTarget (cleanTarget targetPeer)) =
        peerNicknames.entries.find? (matchesTarget (cleanTarget targetPeer)) := by
      apply List.find?_eq_find?_of_perm perm
      intro e hit f hit'
      exact one.only e (perm.mem_iff.mp hit.1) f (perm.mem_iff.mp hit'.1) hit.2 hit'.2
    simp only [sendDirectMessage, resolvedPid, same]

end

/-- Two peers, of which the second may have a nickname that looks like the first one's id. -/
def twoPeers (nickname : String) : InsertionMap Str Str :=
  (InsertionMap.empty.set "1f00000000000000".toList "alice".toList).set "2e00000000000000".toList nickname.toList

theorem bob_unambiguous : @Unambiguous asciiCase (twoPeers "bob") "@Bob".toList "hi".toList := by
  let _ : CaseMapping := asciiCase
  have _ : LawfulLower := asciiCase_lawfulLower
  apply (unambiguous_iff _ _ _).mpr
  constructor
  · decide
  · decide
  · decide

/-- The second peer has the nickname `1F`; the message to `1f` goes to the first. -/
theorem nickname_passed_over : ¬@Unambiguous asciiCase (twoPeers "1F") "1f".toList "hi".toList := by
  let _ : CaseMapping := asciiCase
  intro unambiguous
  have sent := (unambiguous _ (List.Perm.refl _)).1.nickname
  revert sent
  decide

end Bitchat.Tui
