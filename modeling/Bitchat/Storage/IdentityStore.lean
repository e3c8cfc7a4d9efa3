import Bitchat.Crypto.Laws
import Bitchat.Data.Run
import Bitchat.Storage.Identity
import Mathlib.Logic.Function.Basic

/-! Processes that load or create the identity of one installation at the same time. They exclude each
other by a lock on a file of its own, give up when they wait too long, and may stop anywhere; the system
then frees the lock. -/
namespace Bitchat.Storage
open Crypto

inductive Operation where
  | load
  | loadOrCreate
deriving DecidableEq

/-- How a call ends; `nothing` is the `None` of `load_identity`. -/
inductive Outcome where
  | identity (found : LocalIdentity)
  | nothing
  | configurationError
  | timeoutError

/-- Where a call is. From `entered` to `leaving` it is inside the lock. -/
inductive Stage where
  | idle
  | waiting (operation : Operation)
  | entered (operation : Operation)
  | found
  | creating
  | generated (identity : LocalIdentity)
  | writing (identity : LocalIdentity) (count : Nat)
  | leaving (outcome : Outcome)
  | finished (outcome : Outcome)
  | crashed

def Stage.inside : Stage → Bool
  | .entered _ | .found | .creating | .generated _ | .writing .. | .leaving _ => true
  | _ => false

/-- The identity file, the copies of corrupt ones, the holder of the lock and the calls. -/
structure IdentityDirectory where
  file : Option Bytes
  backups : List Bytes := []
  lock : Option Nat := none
  stage : Nat → Stage := fun _ => .idle

def IdentityDirectory.goes (w : IdentityDirectory) (call : Nat) (stage : Stage) : IdentityDirectory :=
  { w with stage := Function.update w.stage call stage }

theorem goes_own (w : IdentityDirectory) (i : Nat) (stage : Stage) : (w.goes i stage).stage i = stage :=
  Function.update_self ..

theorem goes_other (w : IdentityDirectory) {i j : Nat} (other : j ≠ i) (stage : Stage) :
    (w.goes i stage).stage j = w.stage j :=
  Function.update_of_ne other ..

section Steps
variable [Primitives] [SigningKeys] [Json.FloatReader]

/-- What reading the content ends in. -/
def loaded (content : Bytes) : Outcome :=
  match readIdentity content with
  | some identity => .identity identity
  | none => .configurationError

/-- `_create_corrupt_identity_backup` where the content is corrupt; the copy may fail. -/
def backedUp (content : Bytes) (copied : Bool) : List Bytes :=
  if (readIdentity content).isNone && copied then [content] else []

/-- One system call of one call. A step may fail where the system can refuse it. -/
inductive IdentityStep (w : IdentityDirectory) : Nat → IdentityDirectory → Prop where
  | call {i : Nat} (operation : Operation) : w.stage i = .idle →
      IdentityStep w i (w.goes i (.waiting operation))
  | lock {i : Nat} {operation : Operation} : w.stage i = .waiting operation → w.lock = none →
      IdentityStep w i { w.goes i (.entered operation) with lock := some i }
  | timeOut {i : Nat} {operation : Operation} : w.stage i = .waiting operation →
      IdentityStep w i (w.goes i (.finished .timeoutError))
  | present {i : Nat} {operation : Operation} : w.stage i = .entered operation → w.file ≠ none →
      IdentityStep w i (w.goes i .found)
  | absent {i : Nat} {operation : Operation} : w.stage i = .entered operation → w.file = none →
      IdentityStep w i (w.goes i (if operation = .load then .leaving .nothing else .creating))
  | read {i : Nat} {content : Bytes} (copied : Bool) : w.stage i = .found → w.file = some content →
      IdentityStep w i { w.goes i (.leaving (loaded content)) with
        backups := w.backups ++ backedUp content copied }
  | unreadable {i : Nat} : w.stage i = .found →
      IdentityStep w i (w.goes i (.leaving .configurationError))
  | generate {i : Nat} {x25519Private ed25519Private : Bytes} {identity : LocalIdentity} :
      w.stage i = .creating → fromPrivateKeys x25519Private ed25519Private = .ok identity →
      IdentityStep w i (w.goes i (.generated identity))
  | check {i : Nat} {identity : LocalIdentity} (copied : Bool) : w.stage i = .generated identity →
      IdentityStep w i { w.goes i (.writing identity 0) with
        backups := w.backups ++ (w.file.map (backedUp · copied)).getD [] }
  | write {i : Nat} {identity : LocalIdentity} {count more : Nat} : w.stage i = .writing identity count →
      count + more ≤ identity.document.length →
      IdentityStep w i (w.goes i (.writing identity (count + more)))
  | replace {i : Nat} {identity : LocalIdentity} {count : Nat} : w.stage i = .writing identity count →
      count = identity.document.length →
      IdentityStep w i { w.goes i (.leaving (.identity identity)) with
        file := some (identity.document.take count) }
  | writeFails {i : Nat} {identity : LocalIdentity} {count : Nat} : w.stage i = .writing identity count →
      IdentityStep w i (w.goes i (.leaving .configurationError))
  | unlock {i : Nat} {outcome : Outcome} : w.stage i = .leaving outcome →
      IdentityStep w i { w.goes i (.finished outcome) with lock := none }
  | crash {i : Nat} : (∀ outcome, w.stage i ≠ .finished outcome) →
      IdentityStep w i { w.goes i .crashed with lock := if w.lock = some i then none else w.lock }

/-- The identity comes from some pair of private keys. -/
def Made (identity : LocalIdentity) : Prop :=
  ∃ x25519Private ed25519Private, fromPrivateKeys x25519Private ed25519Private = .ok identity

/-- What a call at some stage relies on: there is no file while it makes one, and the identity that it
returns is the one in the file. -/
def Stage.Fits (file : Option Bytes) : Stage → Prop
  | .creating => file = none
  | .generated identity | .writing identity _ => file = none ∧ Made identity
  | .leaving (.identity identity) | .finished (.identity identity) =>
    ∃ content, file = some content ∧ readIdentity content = some identity
  | _ => True

/-- The file is the one found at first, or one that was made where there was none. -/
structure Consistent (first : Option Bytes) (w : IdentityDirectory) : Prop where
  exclusive : ∀ i, (w.stage i).inside = true → w.lock = some i
  fits : ∀ i, (w.stage i).Fits w.file
  kept : w.file = first ∨ first = none ∧ ∃ identity, Made identity ∧ w.file = some identity.document

section Invariant
variable {first : Option Bytes} {w t : IdentityDirectory} {i : Nat} {stage : Stage}

variable (holds : Consistent first w)
include holds

/-- A call goes on outside of what the others can see. -/
theorem Consistent.goes {backups : List Bytes} (inside : stage.inside = true → (w.stage i).inside = true)
    (fits : stage.Fits w.file) : Consistent first { w.goes i stage with backups } := by
  refine ⟨fun j here => ?_, fun j => ?_, holds.kept⟩
  · by_cases same : j = i
    · subst same
      rw [show ({ w.goes j stage with backups } : IdentityDirectory).stage j = stage from goes_own ..] at here
      exact holds.exclusive j (inside here)
    · rw [show ({ w.goes i stage with backups } : IdentityDirectory).stage j = w.stage j from
        goes_other w same stage] at here
      exact holds.exclusive j here
  · by_cases same : j = i
    · subst same
      exact (goes_own w j stage).symm ▸ fits
    · exact (goes_other w same stage).symm ▸ holds.fits j

/-- The lock changes hands, or a call stops. -/
theorem Consistent.relock {lock : Option Nat} (inside : stage.inside = true → lock = some i)
    (others : ∀ j, j ≠ i → w.lock = some j → lock = some j) (fits : stage.Fits w.file) :
    Consistent first { w.goes i stage with lock } := by
  refine ⟨fun j here => ?_, fun j => ?_, holds.kept⟩
  · by_cases same : j = i
    · subst same
      exact inside ((goes_own w j stage) ▸ here)
    · exact others j same (holds.exclusive j ((goes_other w same stage) ▸ here))
  · by_cases same : j = i
    · subst same
      exact (goes_own w j stage).symm ▸ fits
    · exact (goes_other w same stage).symm ▸ holds.fits j

/-- The new file takes its place. Nobody else is inside the lock, and nobody has returned an identity. -/
theorem Consistent.replace {identity : LocalIdentity} {count : Nat} (here : w.stage i = .writing identity count)
    (all : count = identity.document.length) :
    Consistent first { w.goes i (.leaving (.identity identity)) with
      file := some (identity.document.take count) } := by
  obtain ⟨empty, made⟩ : w.file = none ∧ Made identity := by
    have fits := holds.fits i
    rwa [here] at fits
  have mine : w.lock = some i := holds.exclusive i (by rw [here]; rfl)
  rw [all, List.take_length]
  obtain ⟨x25519Private, ed25519Private, keys⟩ := made
  refine ⟨fun j inside => ?_, fun j => ?_, ?_⟩
  · by_cases same : j = i
    · exact same ▸ mine
    · exact holds.exclusive j ((goes_other w same _) ▸ inside)
  · by_cases same : j = i
    · subst same
      rw [show IdentityDirectory.stage _ j = _ from goes_own w j _]
      exact ⟨identity.document, rfl, readIdentity_document keys⟩
    · rw [show IdentityDirectory.stage _ j = _ from goes_other w same _]
      have fits := holds.fits j
      have outside : (w.stage j).inside = true → False := fun inside =>
        same (Option.some.inj ((holds.exclusive j inside).symm.trans mine))
      revert fits outside
      cases w.stage j with
      | creating | generated _ | writing _ _ => exact fun _ outside => (outside rfl).elim
      | leaving outcome | finished outcome =>
        cases outcome with
        | identity other =>
          rintro ⟨content, found, _⟩ _
          rw [empty] at found
          cases found
        | nothing | configurationError | timeoutError => exact fun _ _ => trivial
      | idle | waiting _ | entered _ | found | crashed => exact fun _ _ => trivial
  · have nothing : first = none := by
      rcases holds.kept with same | ⟨nothing, _⟩
      · exact same ▸ empty
      · exact nothing
    exact Or.inr ⟨nothing, identity, ⟨_, _, keys⟩, rfl⟩

theorem Consistent.step (step : IdentityStep w i t) : Consistent first t := by
  have fits := holds.fits i
  cases step with
  | call operation _ => exact holds.goes (by simp [Stage.inside]) trivial
  | lock here free => exact holds.relock (fun _ => rfl) (fun j _ held => by simp [free] at held) trivial
  | timeOut _ => exact holds.goes (by simp [Stage.inside]) trivial
  | present here _ => exact holds.goes (fun _ => by rw [here]; rfl) trivial
  | absent here empty =>
    refine holds.goes (fun _ => by rw [here]; rfl) ?_
    split
    · trivial
    · exact empty
  | @read content copied here found =>
    refine holds.goes (fun _ => by rw [here]; rfl) ?_
    unfold loaded
    cases read : readIdentity content with
    | none => trivial
    | some identity => exact ⟨content, found, read⟩
  | unreadable here => exact holds.goes (fun _ => by rw [here]; rfl) trivial
  | generate here keys =>
    rw [here] at fits
    exact holds.goes (fun _ => by rw [here]; rfl) ⟨fits, _, _, keys⟩
  | check copied here =>
    rw [here] at fits
    exact holds.goes (fun _ => by rw [here]; rfl) fits
  | write here _ =>
    rw [here] at fits
    exact holds.goes (fun _ => by rw [here]; rfl) fits
  | replace here all => exact holds.replace here all
  | writeFails here => exact holds.goes (fun _ => by rw [here]; rfl) trivial
  | @unlock outcome here =>
    have mine : w.lock = some i := holds.exclusive i (by rw [here]; rfl)
    rw [here] at fits
    refine holds.relock (by simp [Stage.inside]) (fun j other held => ?_) (by cases outcome <;> exact fits)
    exact absurd (Option.some.inj (held.symm.trans mine)) other
  | crash _ =>
    refine holds.relock (by simp [Stage.inside]) (fun j other held => ?_) trivial
    rw [if_neg (by rw [held]; simpa using other), held]

/-- A file that is there is not written again. -/
theorem Consistent.keeps {content : Bytes} (step : IdentityStep w i t) (found : w.file = some content) :
    t.file = some content := by
  cases step with
  | replace here _ =>
    have fits := holds.fits i
    rw [here] at fits
    rw [fits.1] at found
    cases found
  | _ => exact found

end Invariant

/-- No call has begun. -/
def IdentityDirectory.quiet (file : Option Bytes) : IdentityDirectory := { file }

section Runs
variable {first : Option Bytes} {w : IdentityDirectory} {history : List (Taken IdentityDirectory Nat)}
  (run : Run IdentityStep (.quiet first) history w)
include run

theorem run_consistent : Consistent first w := by
  have initial : Consistent first (.quiet first) :=
    ⟨fun _ inside => Bool.noConfusion inside, fun _ => trivial, Or.inl rfl⟩
  exact run.invariant initial fun holds step => holds.step step

/-- However calls overlap, wait too long, fail or stop, every identity that one of them returns is the one
in the file. The file is never torn, and once there it is not written again. -/
theorem identity_agreement :
    (∀ i j identity other, w.stage i = .finished (.identity identity) →
      w.stage j = .finished (.identity other) → identity = other) ∧
    (∀ i identity, w.stage i = .finished (.identity identity) →
      ∃ content, w.file = some content ∧ readIdentity content = some identity) ∧
    (w.file = first ∨ first = none ∧ ∃ identity, Made identity ∧ w.file = some identity.document) ∧
    ∀ e ∈ history, ∀ content, e.before.file = some content → w.file = some content := by
  have holds := run_consistent run
  have returned : ∀ i identity, w.stage i = .finished (.identity identity) →
      ∃ content, w.file = some content ∧ readIdentity content = some identity := by
    intro i identity here
    have fits := holds.fits i
    rwa [here] at fits
  refine ⟨fun i j identity other one another => ?_, returned, holds.kept, fun e member content found => ?_⟩
  · obtain ⟨content, found, read⟩ := returned i identity one
    obtain ⟨content', found', read'⟩ := returned j other another
    obtain rfl := Option.some.inj (found.symm.trans found')
    exact Option.some.inj (read.symm.trans read')
  · obtain ⟨earlier, later, rfl⟩ := List.append_of_mem member
    refine run.persists (P := fun w => w.file = some content) found fun x since here => ?_
    have taken : x ∈ earlier ++ e :: later := List.mem_append_right _ since
    obtain ⟨before, after, split⟩ := List.append_of_mem taken
    obtain ⟨reached, step⟩ := (split ▸ run).split
    exact (run_consistent reached).keeps step here

end Runs
end Steps

section Example

@[reducible] def hashedKeys : SigningKeys where
  publicKey := Modular.hash

@[reducible] def noNumerals : Json.FloatReader where
  float _ := .nan

attribute [local instance] Modular.primitives hashedKeys noNumerals

/-- Two processes start on a fresh installation, and the second waits while the first creates the identity. -/
theorem identity_agreement_race : ∃ history w identity, Run IdentityStep (.quiet none) history w ∧
    w.stage 0 = .finished (.identity identity) ∧ w.stage 1 = .finished (.identity identity) ∧
    ∃ content, w.file = some content ∧ readIdentity content = some identity := by
  obtain ⟨identity, made⟩ : ∃ identity, fromPrivateKeys (List.replicate 32 1) (List.replicate 32 2) =
      .ok identity := ⟨_, rfl⟩
  have quiet : Run IdentityStep (.quiet none) [] _ := .nil
  have started := (quiet.snoc (.call (i := 0) .loadOrCreate rfl)).snoc (.call (i := 1) .loadOrCreate rfl)
  have created := (((started.snoc (.lock (i := 0) rfl rfl)).snoc (.absent (i := 0) rfl rfl)).snoc
    (.generate (i := 0) rfl made)).snoc (.check (i := 0) true rfl)
  have written := created.snoc (.write (i := 0) rfl (Nat.zero_add identity.document.length).le)
  have replaced := (written.snoc (.replace (i := 0) rfl (Nat.zero_add _))).snoc (.unlock (i := 0) rfl)
  have loaded' := (((replaced.snoc (.lock (i := 1) rfl rfl)).snoc (.present (i := 1) rfl (Option.some_ne_none _))).snoc
    (.read (i := 1) true rfl rfl)).snoc (.unlock (i := 1) rfl)
  have read : loaded (identity.document.take (0 + identity.document.length)) = .identity identity := by
    rw [Nat.zero_add, List.take_length, loaded, readIdentity_document made]
  refine ⟨_, _, identity, loaded', rfl, ?_, (identity_agreement loaded').2.1 0 identity rfl⟩
  rw [← read]
  rfl

end Example
end Bitchat.Storage
