import Bitchat.Crypto.CipherCalls
import Bitchat.Crypto.Laws
import Bitchat.Data.Run
import Mathlib.Data.Finset.Card
import Mathlib.Order.Interval.Finset.Nat

/-! What the replay window of a transport cipher accepts. The window is pruned
only when the highest nonce grows; it still is the set of accepted nonces in the
last 1024 places. -/
namespace Bitchat.Crypto.NoiseCipherState
open Stateful

/-- The counter in front of a transport ciphertext. -/
def wireNonce (ciphertext : Bytes) : Nat := Bytes.ofLE (ciphertext.take nonceSizeBytes)

theorem wireNonce_lt (ciphertext : Bytes) : wireNonce ciphertext < 2 ^ 32 := by
  have bound := Bytes.ofLE_lt (ciphertext.take nonceSizeBytes)
  have size : (ciphertext.take nonceSizeBytes).length ≤ 4 := List.length_take_le ..
  exact bound.trans_le (Nat.pow_le_pow_right (by decide) size)

theorem selectNonce_transport {s : NoiseCipherState} {ciphertext : Bytes} (mode : s.useExtractedNonce = true)
    {counter : Nat}
    {payload : Bytes} : s.selectNonce ciphertext = .ok (counter, payload) ↔
      nonceSizeBytes ≤ ciphertext.length ∧ s.isValidNonce (wireNonce ciphertext) = true ∧
      counter = wireNonce ciphertext ∧ payload = ciphertext.drop nonceSizeBytes := by
  unfold selectNonce extractWireNonce
  rw [if_pos mode]
  by_cases size : ciphertext.length < nonceSizeBytes
  · simp [size, bind, Except.bind, not_le.mpr size]
  · by_cases valid : s.isValidNonce (wireNonce ciphertext) = true
    · have valid' := valid
      unfold wireNonce at valid'
      simp [size, bind, Except.bind, pure, Except.pure, not_lt.mp size, valid', wireNonce, eq_comm]
    · have valid' := valid
      unfold wireNonce at valid'
      simp [size, bind, Except.bind, valid, valid']

/-- The highest accepted nonce, zero before the first. -/
def highest (nonces : List Nat) : Nat := nonces.foldr max 0

theorem le_highest {nonces : List Nat} {n : Nat} (h : n ∈ nonces) : n ≤ highest nonces := by
  induction nonces with
  | nil => cases h
  | cons m rest ih =>
    rcases List.mem_cons.mp h with rfl | h
    · exact le_max_left _ _
    · exact (ih h).trans (le_max_right _ _)

theorem highest_le {nonces : List Nat} {bound : Nat} (all : ∀ n ∈ nonces, n ≤ bound) :
    highest nonces ≤ bound := by
  induction nonces with
  | nil => exact Nat.zero_le _
  | cons m rest ih =>
    apply max_le
    · exact all m List.mem_cons_self
    · exact ih fun n h => all n (List.mem_cons_of_mem _ h)

theorem highest_append (nonces : List Nat) (n : Nat) :
    highest (nonces ++ [n]) = max (highest nonces) n := by
  induction nonces with
  | nil => simp [highest]
  | cons m rest ih =>
    simp only [highest, List.cons_append, List.foldr_cons] at ih ⊢
    rw [ih, max_assoc]

/-- The accepted nonces of the last 1024 places. -/
def inWindow (nonces : List Nat) : Finset Nat :=
  nonces.toFinset.filter fun n => highest nonces < n + noiseReplayWindowSize

structure Tracks (key : Bytes) (nonces : List Nat) (s : NoiseCipherState) : Prop where
  keyed : s.key = some key
  mode : s.useExtractedNonce = true
  top : s.highestReceivedNonce = highest nonces
  window : s.replayWindow = inWindow nonces

theorem inWindow_card (nonces : List Nat) : (inWindow nonces).card ≤ noiseReplayWindowSize := by
  have inside : inWindow nonces ⊆
      Finset.Icc (highest nonces + 1 - noiseReplayWindowSize) (highest nonces) := by
    intro n h
    simp only [inWindow, Finset.mem_filter, List.mem_toFinset] at h
    have := le_highest h.1
    exact Finset.mem_Icc.mpr ⟨by omega, this⟩
  refine (Finset.card_le_card inside).trans ?_
  rw [Nat.card_Icc]
  omega

theorem Tracks.isValidNonce {key : Bytes} {s : NoiseCipherState} {nonces : List Nat}
    (tracks : Tracks key nonces s) (n : Nat) :
    s.isValidNonce n = true ↔ n ∉ nonces ∧ highest nonces < n + noiseReplayWindowSize := by
  unfold NoiseCipherState.isValidNonce
  rw [tracks.top, tracks.window]
  by_cases old : n + noiseReplayWindowSize ≤ highest nonces
  · simp [old, not_lt.mpr old]
  · rw [if_neg old]
    by_cases new : highest nonces < n
    · have fresh : n ∉ nonces := fun h => absurd (le_highest h) (not_le.mpr new)
      simp [new, fresh, not_le.mp old]
    · simp [new, inWindow, not_le.mp old]

/-- Marking an acceptable nonce keeps the window exact. -/
theorem Tracks.markNonceSeen {key : Bytes} {s : NoiseCipherState} {nonces : List Nat}
    (tracks : Tracks key nonces s) (n : Nat)
    (inRange : highest nonces < n + noiseReplayWindowSize) : Tracks key (nonces ++ [n]) (s.markNonceSeen n) := by
  have grown := highest_append nonces n
  unfold NoiseCipherState.markNonceSeen
  rw [tracks.top, tracks.window]
  by_cases new : highest nonces < n
  · rw [if_pos new]
    rw [max_eq_right new.le] at grown
    refine ⟨tracks.keyed, tracks.mode, grown.symm, ?_⟩
    ext m
    by_cases jump : noiseReplayWindowSize ≤ n - highest nonces
    · have small : m ∈ nonces → m ≤ highest nonces := le_highest
      simp only [if_pos jump, inWindow, grown, Finset.mem_insert, Finset.mem_filter,
        List.mem_toFinset, List.mem_append, List.mem_singleton, Finset.notMem_empty, or_false]
      simp only [noiseReplayWindowSize] at jump ⊢
      constructor
      · rintro rfl
        exact ⟨Or.inr rfl, by omega⟩
      · rintro ⟨old | rfl, inside⟩
        · have := small old
          omega
        · rfl
    · simp only [if_neg jump, inWindow, grown, Finset.mem_insert, Finset.mem_filter,
        List.mem_toFinset, List.mem_append, List.mem_singleton]
      simp only [noiseReplayWindowSize]
      constructor
      · rintro (rfl | ⟨⟨old, _⟩, inside⟩)
        · exact ⟨Or.inr rfl, by omega⟩
        · exact ⟨Or.inl old, inside⟩
      · rintro ⟨old | rfl, inside⟩
        · exact Or.inr ⟨⟨old, by omega⟩, inside⟩
        · exact Or.inl rfl
  · rw [if_neg new]
    rw [max_eq_left (not_lt.mp new)] at grown
    refine ⟨tracks.keyed, tracks.mode, grown.symm, ?_⟩
    ext m
    simp only [inWindow, grown, Finset.mem_insert, Finset.mem_filter, List.mem_toFinset,
      List.mem_append, List.mem_singleton]
    constructor
    · rintro (rfl | ⟨old, inside⟩)
      · exact ⟨Or.inr rfl, inRange⟩
      · exact ⟨Or.inl old, inside⟩
    · rintro ⟨old | rfl, inside⟩
      · exact Or.inr ⟨old, inside⟩
      · exact Or.inl rfl

abbrev Calls := List (Taken NoiseCipherState ((Bytes × Bytes) × Except CryptoError Bytes))

/-- The nonces of the calls that returned, in order. -/
def accepted (calls : Calls) : List Nat := calls.filterMap fun e =>
  match e.label.2 with
  | .ok _ => some (wireNonce e.label.1.1)
  | .error _ => none

theorem accepted_snoc (calls : Calls)
    (e : Taken NoiseCipherState ((Bytes × Bytes) × Except CryptoError Bytes)) :
    accepted (calls ++ [e]) = accepted calls ++ accepted [e] := List.filterMap_append ..

section Cipher
variable [Primitives]

/-- The bytes behind the counter authenticate under it. -/
def Verifies (key ciphertext aad plaintext : Bytes) : Prop :=
  nonceSizeBytes ≤ ciphertext.length ∧
    Primitives.aeadDecrypt key (aeadNonce (wireNonce ciphertext))
      (ciphertext.drop nonceSizeBytes) aad = some plaintext

section OneCall
variable {key : Bytes} {s t : NoiseCipherState} {ciphertext aad plaintext : Bytes}

/-- What a call does: it returns exactly when the counter is valid and the rest verifies. -/
theorem decrypt_eq_ok (keyed : s.key = some key) (mode : s.useExtractedNonce = true) :
    decrypt ciphertext aad s = .ok plaintext t ↔
      Verifies key ciphertext aad plaintext ∧ s.isValidNonce (wireNonce ciphertext) = true ∧
      t = s.markNonceSeen (wireNonce ciphertext) := by
  have nonce := buildChachaNonce_eq ((wireNonce_lt ciphertext).trans (by decide))
  cases selected : s.selectNonce ciphertext with
  | error e =>
    have refused : decrypt ciphertext aad s = .error e s := by
      unfold decrypt
      rw [get_bind]
      simp only [keyed, selected]
      exact bind_error (lift_error e s)
    rw [refused]
    simp only [reduceCtorEq, false_iff]
    rintro ⟨⟨size, _⟩, valid, _⟩
    rw [(selectNonce_transport mode).mpr ⟨size, valid, rfl, rfl⟩] at selected
    cases selected
  | ok found =>
    obtain ⟨size, valid, counter, payload⟩ := (selectNonce_transport mode).mp selected
    unfold decrypt Verifies
    rw [get_bind]
    simp only [keyed, selected]
    rw [bind_ok (lift_ok _ s)]
    obtain ⟨c, d⟩ := found
    simp only at counter payload
    simp only [counter, payload, nonce]
    rw [bind_ok (lift_ok _ s)]
    cases Primitives.aeadDecrypt key (aeadNonce (wireNonce ciphertext))
        (ciphertext.drop nonceSizeBytes) aad with
    | none => simp
    | some found =>
      simp only [modify_bind, consumeNonce, mode, if_true, pure_apply]
      simp [size, valid, eq_comm]

/-- A call that raises leaves the cipher alone, in both modes. -/
theorem decrypt_error_state {e : CryptoError} (raised : decrypt ciphertext aad s = .error e t) :
    t = s := by
  unfold decrypt at raised
  rw [get_bind] at raised
  cases keyed : s.key with
  | none =>
    simp only [keyed] at raised
    exact (EStateM.Result.error.inj raised).2.symm
  | some key =>
    simp only [keyed] at raised
    cases selected : s.selectNonce ciphertext with
    | error e' =>
      rw [selected, bind_error (lift_error _ s)] at raised
      exact (EStateM.Result.error.inj raised).2.symm
    | ok found =>
      obtain ⟨counter, payload⟩ := found
      rw [selected, bind_ok (lift_ok _ s)] at raised
      simp only at raised
      cases nonce : buildChachaNonce counter with
      | error e' =>
        rw [nonce, bind_error (lift_error _ s)] at raised
        exact (EStateM.Result.error.inj raised).2.symm
      | ok chachaNonce =>
        rw [nonce, bind_ok (lift_ok _ s)] at raised
        cases opened : Primitives.aeadDecrypt key chachaNonce payload aad with
        | none =>
          simp only [opened] at raised
          exact (EStateM.Result.error.inj raised).2.symm
        | some plaintext =>
          simp only [opened, modify_bind, pure_apply, reduceCtorEq] at raised

end OneCall

/-- One call of `decrypt`: ciphertext and associated data, and what came back. -/
def Step (s : NoiseCipherState) (label : (Bytes × Bytes) × Except CryptoError Bytes)
    (t : NoiseCipherState) : Prop := outcome (decrypt label.1.1 label.1.2) s = (label.2, t)

section Runs
variable {key : Bytes} {s t : NoiseCipherState} {nonces : List Nat}

theorem step_tracks {label : (Bytes × Bytes) × Except CryptoError Bytes}
    (tracks : Tracks key nonces s) (step : Step s label t) :
    Tracks key (nonces ++ accepted [⟨s, label, t⟩]) t := by
  obtain ⟨⟨ciphertext, aad⟩, result⟩ := label
  cases result with
  | error e =>
    have same := decrypt_error_state (outcome_eq_error.mp step)
    simpa [accepted, same] using tracks
  | ok plaintext =>
    obtain ⟨_, valid, rfl⟩ :=
      (decrypt_eq_ok tracks.keyed tracks.mode).mp (outcome_eq_ok.mp step)
    exact tracks.markNonceSeen _ ((tracks.isValidNonce _).mp valid).2

theorem run_tracks {calls : Calls} (run : Run Step (transport key) calls s) :
    Tracks key (accepted calls) s := by
  induction run with
  | nil => exact ⟨rfl, rfl, rfl, rfl⟩
  | snoc _ step ih =>
    rw [accepted_snoc]
    exact step_tracks ih step

/-- After any run: what is accepted, what the window holds, and that raising changes nothing. -/
theorem replay_window_exact {calls : Calls} (run : Run Step (transport key) calls s) :
    (∀ ciphertext aad, (∃ plaintext t, decrypt ciphertext aad s = .ok plaintext t) ↔
      (∃ plaintext, Verifies key ciphertext aad plaintext) ∧
      wireNonce ciphertext ∉ accepted calls ∧
      highest (accepted calls) < wireNonce ciphertext + noiseReplayWindowSize) ∧
    (∀ n, n ∈ s.replayWindow ↔ n ∈ accepted calls ∧
      highest (accepted calls) < n + noiseReplayWindowSize ∧ n ≤ highest (accepted calls)) ∧
    s.replayWindow.card ≤ noiseReplayWindowSize ∧
    ∀ ciphertext aad e t, decrypt ciphertext aad s = .error e t → t = s := by
  have tracks := run_tracks run
  refine ⟨fun ciphertext aad => ?_, fun n => ?_, ?_, fun _ _ _ _ => decrypt_error_state⟩
  · simp only [decrypt_eq_ok tracks.keyed tracks.mode, ← tracks.isValidNonce]
    constructor
    · rintro ⟨plaintext, _, verifies, valid, _⟩
      exact ⟨⟨plaintext, verifies⟩, valid⟩
    · rintro ⟨⟨plaintext, verifies⟩, valid⟩
      exact ⟨plaintext, _, verifies, valid, rfl⟩
  · rw [tracks.window]
    simp only [inWindow, Finset.mem_filter, List.mem_toFinset]
    exact ⟨fun h => ⟨h.1, h.2, le_highest h.1⟩, fun h => ⟨h.1, h.2.1⟩⟩
  · rw [tracks.window]
    exact inWindow_card _

end Runs
end Cipher

section Example
attribute [local instance] Modular.primitives

/-- A message and its replay: the second call raises, and every later copy is refused. -/
theorem replay_window_exact_replayed :
    let key : Bytes := List.replicate 32 7
    let sealed : Bytes := [0, 0, 0, 0] ++ ([1, 2, 3] ++ Modular.tag key (aeadNonce 0) [1, 2, 3] [])
    ∃ calls s, Run Step (transport key) calls s ∧ calls.length = 2 ∧ accepted calls = [0] ∧
      (∀ n, n ∈ s.replayWindow ↔ n ∈ accepted calls ∧
        highest (accepted calls) < n + noiseReplayWindowSize ∧ n ≤ highest (accepted calls)) ∧
      ¬ ∃ plaintext t, decrypt sealed [] s = .ok plaintext t := by
  intro key sealed
  have nonce : wireNonce sealed = 0 := by simp [sealed, wireNonce, nonceSizeBytes, Bytes.ofLE]
  have verifies : Verifies key sealed [] [1, 2, 3] := by
    constructor
    · simp [sealed, nonceSizeBytes]
    · rw [nonce]
      exact Modular.openSealed_append key (aeadNonce 0) [1, 2, 3] []
  let t := (transport key).markNonceSeen 0
  have first : Step (transport key) ((sealed, []), .ok [1, 2, 3]) t := by
    apply outcome_eq_ok.mpr
    apply (decrypt_eq_ok rfl rfl).mpr
    rw [nonce]
    exact ⟨verifies, rfl, rfl⟩
  have once : Run Step (transport key) [⟨_, _, t⟩] t := Run.nil.snoc first
  have refused : ¬ ∃ plaintext u, decrypt sealed [] t = .ok plaintext u := by
    intro accepted
    have fresh := ((replay_window_exact once).1 sealed []).mp accepted
    simp [NoiseCipherState.accepted, nonce] at fresh
  obtain ⟨e, again⟩ : ∃ e, Step t ((sealed, []), .error e) t := by
    cases result : decrypt sealed [] t with
    | ok plaintext u => exact absurd ⟨plaintext, u, result⟩ refused
    | error e u =>
      obtain rfl := decrypt_error_state result
      exact ⟨e, outcome_eq_error.mpr result⟩
  refine ⟨_, t, once.snoc again, rfl, ?_, (replay_window_exact (once.snoc again)).2.1, refused⟩
  simp [accepted, nonce]

end Example
end Bitchat.Crypto.NoiseCipherState
