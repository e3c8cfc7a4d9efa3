import Bitchat.Data.Run

/-! Coroutines on a shared state: programs that run alone between their awaits, and give up control at
them. What a coroutine does is stated against what the others may do meanwhile. -/

/-- A program on states `σ` that may raise `ε`; an await of `r` is answered with a `β r` or an exception. -/
inductive Coroutine (σ ε ρ : Type) (β : ρ → Type) (α : Type) where
  | done (a : α)
  | raise (e : ε)
  | read (k : σ → Coroutine σ ε ρ β α)
  | update (f : σ → σ) (k : Coroutine σ ε ρ β α)
  | await (r : ρ) (k : Except ε (β r) → Coroutine σ ε ρ β α)

namespace Coroutine
variable {σ ε ρ α γ : Type} {β : ρ → Type}

def bind : Coroutine σ ε ρ β α → (α → Coroutine σ ε ρ β γ) → Coroutine σ ε ρ β γ
  | .done a, f => f a
  | .raise e, _ => .raise e
  | .read k, f => .read fun s => (k s).bind f
  | .update g k, f => .update g (k.bind f)
  | .await r k, f => .await r fun answer => (k answer).bind f

instance : Monad (Coroutine σ ε ρ β) where
  pure := .done
  bind := bind

/-- `try … except`. -/
def attempt : Coroutine σ ε ρ β α → (ε → Coroutine σ ε ρ β α) → Coroutine σ ε ρ β α
  | .done a, _ => .done a
  | .raise e, h => h e
  | .read k, h => .read fun s => (k s).attempt h
  | .update g k, h => .update g (k.attempt h)
  | .await r k, h => .await r fun answer => (k answer).attempt h

def get : Coroutine σ ε ρ β σ := .read .done

def modify (f : σ → σ) : Coroutine σ ε ρ β Unit := .update f (.done ())

/-- Wait for `r`; an exception that ends the wait is raised here. -/
def wait (r : ρ) : Coroutine σ ε ρ β (β r) := .await r fun
  | .ok b => .done b
  | .error e => .raise e

/-- How a stretch between awaits ends. -/
inductive Outcome (ε ρ α : Type) where
  | waits (r : ρ)
  | returned (a : α)
  | raised (e : ε)
deriving DecidableEq

/-- The end of a stretch, with what is left to do behind an await. -/
inductive Pause (σ ε ρ : Type) (β : ρ → Type) (α : Type) where
  | waits (r : ρ) (k : Except ε (β r) → Coroutine σ ε ρ β α)
  | returned (a : α)
  | raised (e : ε)

def Pause.outcome : Pause σ ε ρ β α → Outcome ε ρ α
  | .waits r _ => .waits r
  | .returned a => .returned a
  | .raised e => .raised e

/-- Run until the next await. -/
def run : Coroutine σ ε ρ β α → σ → Pause σ ε ρ β α × σ
  | .done a, s => (.returned a, s)
  | .raise e, s => (.raised e, s)
  | .read k, s => (k s).run s
  | .update f k, s => k.run (f s)
  | .await r k, s => (.waits r k, s)

/-- The demands on a coroutine: on the stretches that end in an await, in a return and in an exception,
each on the states at its two ends. -/
structure Demands (σ ε ρ α : Type) where
  pause : ρ → σ → σ → Prop
  returns : α → σ → σ → Prop
  raises : ε → σ → σ → Prop

/-- Every stretch meets the demands, if the others do no more than `rely` at the awaits. -/
def Meets (rely : σ → σ → Prop) (demands : Demands σ ε ρ α) :
    Coroutine σ ε ρ β α → σ → σ → Prop
  | .done a, s₀, s => demands.returns a s₀ s
  | .raise e, s₀, s => demands.raises e s₀ s
  | .read k, s₀, s => (k s).Meets rely demands s₀ s
  | .update f k, s₀, s => k.Meets rely demands s₀ (f s)
  | .await r k, s₀, s => demands.pause r s₀ s ∧
      ∀ answer t, rely s t → (k answer).Meets rely demands t t

section Rules
variable {rely : σ → σ → Prop} {demands : Demands σ ε ρ α} {s₀ s : σ}

theorem meets_pure (a : α) : (pure a : Coroutine σ ε ρ β α).Meets rely demands s₀ s ↔
    demands.returns a s₀ s := Iff.rfl

/-- A first part may return wherever the rest can go on. -/
theorem meets_bind {demands : Demands σ ε ρ γ} (c : Coroutine σ ε ρ β α)
    (f : α → Coroutine σ ε ρ β γ) : (c >>= f).Meets rely demands s₀ s ↔
    c.Meets rely ⟨demands.pause, fun a s₀ s => (f a).Meets rely demands s₀ s, demands.raises⟩ s₀ s := by
  change (c.bind f).Meets rely demands s₀ s ↔ _
  induction c generalizing s₀ s with
  | done | raise => exact Iff.rfl
  | read k ih => exact ih s
  | update g k ih => exact ih
  | await r k ih =>
    exact and_congr_right' (forall₂_congr fun answer t => imp_congr_right fun _ => ih answer)

/-- A first part may raise wherever the handler can go on. -/
theorem meets_attempt (c : Coroutine σ ε ρ β α) (h : ε → Coroutine σ ε ρ β α) :
    (c.attempt h).Meets rely demands s₀ s ↔
    c.Meets rely ⟨demands.pause, demands.returns, fun e s₀ s => (h e).Meets rely demands s₀ s⟩ s₀ s := by
  induction c generalizing s₀ s with
  | done | raise => exact Iff.rfl
  | read k ih => exact ih s
  | update g k ih => exact ih
  | await r k ih =>
    exact and_congr_right' (forall₂_congr fun answer t => imp_congr_right fun _ => ih answer)

theorem meets_get {demands : Demands σ ε ρ σ} : (get : Coroutine σ ε ρ β σ).Meets rely demands s₀ s ↔
    demands.returns s s₀ s := Iff.rfl

theorem meets_modify {demands : Demands σ ε ρ Unit} (f : σ → σ) :
    (modify f : Coroutine σ ε ρ β Unit).Meets rely demands s₀ s ↔ demands.returns () s₀ (f s) := Iff.rfl

theorem meets_wait (r : ρ) {demands : Demands σ ε ρ (β r)} :
    (wait r : Coroutine σ ε ρ β (β r)).Meets rely demands s₀ s ↔ demands.pause r s₀ s ∧
      ∀ t, rely s t → (∀ b, demands.returns b t t) ∧ ∀ e, demands.raises e t t := by
  refine and_congr_right' ⟨fun met t others => ⟨fun b => met (.ok b) t others,
    fun e => met (.error e) t others⟩, fun met answer t others => ?_⟩
  cases answer with
  | ok b => exact (met t others).1 b
  | error e => exact (met t others).2 e

/-- Weaker demands are met too. -/
theorem Meets.mono {weaker : Demands σ ε ρ α} {c : Coroutine σ ε ρ β α}
    (met : c.Meets rely demands s₀ s) (pause : ∀ r s₀ s, demands.pause r s₀ s → weaker.pause r s₀ s)
    (returns : ∀ a s₀ s, demands.returns a s₀ s → weaker.returns a s₀ s)
    (raises : ∀ e s₀ s, demands.raises e s₀ s → weaker.raises e s₀ s) :
    c.Meets rely weaker s₀ s := by
  induction c generalizing s₀ s with
  | done a => exact returns a _ _ met
  | raise e => exact raises e _ _ met
  | read k ih => exact ih s met
  | update g k ih => exact ih met
  | await r k ih => exact ⟨pause r _ _ met.1, fun answer t others => ih answer (met.2 answer t others)⟩

end Rules

/-- What a stretch that ends so has met. -/
def Demands.At (demands : Demands σ ε ρ α) (s₀ s : σ) : Outcome ε ρ α → Prop
  | .waits r => demands.pause r s₀ s
  | .returned a => demands.returns a s₀ s
  | .raised e => demands.raises e s₀ s

theorem Meets.run {rely : σ → σ → Prop} {demands : Demands σ ε ρ α} {c : Coroutine σ ε ρ β α} {s₀ s t : σ}
    {pause : Pause σ ε ρ β α} (met : c.Meets rely demands s₀ s) (runs : c.run s = (pause, t)) :
    demands.At s₀ t pause.outcome ∧ ∀ r k, pause = .waits r k → ∀ answer u, rely t u →
      (k answer).Meets rely demands u u := by
  induction c generalizing s with
  | done a =>
    obtain ⟨rfl, rfl⟩ := Prod.mk.inj runs
    exact ⟨met, fun _ _ none => by cases none⟩
  | raise e =>
    obtain ⟨rfl, rfl⟩ := Prod.mk.inj runs
    exact ⟨met, fun _ _ none => by cases none⟩
  | read k ih => exact ih s met runs
  | update g k ih => exact ih met runs
  | await r k ih =>
    obtain ⟨rfl, rfl⟩ := Prod.mk.inj runs
    refine ⟨met.1, fun r' k' same => ?_⟩
    cases same
    exact met.2

end Coroutine

/-- A call that has come to an await. -/
structure Waiting (σ ε ρ : Type) (β : ρ → Type) (α κ : Type) where
  call : κ
  request : ρ
  resume : Except ε (β request) → Coroutine σ ε ρ β α

/-- Calls on one state. At most one of them has the lock; the others run without it. -/
structure Calls (σ ε ρ : Type) (β : ρ → Type) (α κ : Type) where
  state : σ
  holder : Option (Waiting σ ε ρ β α κ) := none
  free : List (Waiting σ ε ρ β α κ) := []

namespace Calls
open Coroutine
variable {σ ε ρ α κ ι : Type} {β : ρ → Type}

/-- A stretch of a call, or an event from outside. -/
inductive Label (ε ρ α κ ι : Type) where
  | stretch (call : κ) (outcome : Outcome ε ρ α)
  | event (i : ι)

/-- The call, where it has more to do. -/
def waiting (call : κ) : Pause σ ε ρ β α → Option (Waiting σ ε ρ β α κ)
  | .waits r k => some ⟨call, r, k⟩
  | .returned _ | .raised _ => none

section
variable (body : κ → Coroutine σ ε ρ β α) (locked : κ → Prop) (event : ι → σ → σ → Prop)

inductive Step : Calls σ ε ρ β α κ → Label ε ρ α κ ι → Calls σ ε ρ β α κ → Prop where
  /-- A call that needs the lock gets it when no other has it. -/
  | enter {s pause t} (call : κ) : locked call → s.holder = none → (body call).run s.state = (pause, t) →
      Step s (.stretch call pause.outcome) { s with state := t, holder := waiting call pause }
  | resume {s pause t} {task : Waiting σ ε ρ β α κ} (answer : Except ε (β task.request)) :
      s.holder = some task →
      (task.resume answer).run s.state = (pause, t) →
      Step s (.stretch task.call pause.outcome) { s with state := t, holder := waiting task.call pause }
  | spawn {s pause t} (call : κ) : ¬ locked call → (body call).run s.state = (pause, t) →
      Step s (.stretch call pause.outcome)
        { s with state := t, free := (waiting call pause).toList ++ s.free }
  | wake {s before after pause t} {task : Waiting σ ε ρ β α κ} (answer : Except ε (β task.request)) :
      s.free = before ++ task :: after →
      (task.resume answer).run s.state = (pause, t) →
      Step s (.stretch task.call pause.outcome)
        { s with state := t, free := before ++ (waiting task.call pause).toList ++ after }
  | event {s t} (i : ι) : event i s.state t → Step s (.event i) { s with state := t }

/-- The calls keep `always`, and with the lock free `idle` as well. What a call without the lock does, and
what comes from outside, a call with the lock can rely on; `frame` is what any step may do. -/
structure Guarded (always idle : σ → Prop) (rely frame : σ → σ → Prop)
    (demands : κ → Demands σ ε ρ α) : Prop where
  refl : ∀ s, rely s s
  trans : ∀ {s t u}, rely s t → rely t u → rely s u
  frame_trans : ∀ {s t u}, frame s t → frame t u → frame s u
  rely_frame : ∀ {s t}, rely s t → frame s t
  always_rely : ∀ {s t}, always s → rely s t → always t
  idle_rely : ∀ {s t}, idle s → rely s t → idle t
  event_rely : ∀ {i s t}, event i s t → rely s t
  holds : ∀ {call s}, locked call → always s → idle s → (body call).Meets rely (demands call) s s
  holds_frame : ∀ {call s₀ s o}, locked call → (demands call).At s₀ s o → frame s₀ s
  holds_always : ∀ {call s₀ s o}, locked call → (demands call).At s₀ s o → always s
  holds_idle : ∀ {call s₀ s o}, locked call → (demands call).At s₀ s o → (∀ r, o ≠ .waits r) → idle s
  free : ∀ {call} s, ¬ locked call → (body call).Meets frame (demands call) s s
  free_rely : ∀ {call s₀ s o}, ¬ locked call → (demands call).At s₀ s o → rely s₀ s

end

section
variable {body : κ → Coroutine σ ε ρ β α} {locked : κ → Prop} {event : ι → σ → σ → Prop}
  {always idle : σ → Prop} {rely frame : σ → σ → Prop} {demands : κ → Demands σ ε ρ α}
  {s t : Calls σ ε ρ β α κ} {label : Label ε ρ α κ ι}

/-- A call without the lock, waiting at `s`, goes on to meet its demands. -/
def Drifts (locked : κ → Prop) (frame : σ → σ → Prop) (demands : κ → Demands σ ε ρ α) (s : σ)
    (task : Waiting σ ε ρ β α κ) : Prop :=
  ¬ locked task.call ∧ ∀ answer t, frame s t → (task.resume answer).Meets frame (demands task.call) t t

/-- The state is as promised, and every waiting call goes on to meet its demands. -/
structure Good (locked : κ → Prop) (always idle : σ → Prop) (rely frame : σ → σ → Prop)
    (demands : κ → Demands σ ε ρ α) (s : Calls σ ε ρ β α κ) : Prop where
  always : always s.state
  idle : s.holder = none → idle s.state
  holder : ∀ task, s.holder = some task → locked task.call ∧ ∀ answer t, rely s.state t →
    (task.resume answer).Meets rely (demands task.call) t t
  free : ∀ task ∈ s.free, Drifts locked frame demands s.state task

/-- Nothing is under way yet. -/
theorem Good.start {s : σ} (holds : always s) (rests : idle s) :
    Good locked always idle rely frame demands ({ state := s } : Calls σ ε ρ β α κ) where
  always := holds
  idle _ := rests
  holder _ none := by cases none
  free _ none := by cases none

def Label.Met (demands : κ → Demands σ ε ρ α) (s t : σ) : Label ε ρ α κ ι → Prop
  | .stretch call outcome => (demands call).At s t outcome
  | .event _ => True

theorem Drifts.after (guarded : Guarded body locked event always idle rely frame demands) {u v : σ}
    (taken : frame u v) {task : Waiting σ ε ρ β α κ} (drifts : Drifts locked frame demands u task) :
    Drifts locked frame demands v task :=
  ⟨drifts.1, fun answer t more => drifts.2 answer t (guarded.frame_trans taken more)⟩

/-- A stretch of the call that has the lock. -/
theorem Good.hold (guarded : Guarded body locked event always idle rely frame demands)
    (good : Good locked always idle rely frame demands s) {call : κ} (needs : locked call)
    {c : Coroutine σ ε ρ β α} {pause : Pause σ ε ρ β α} {u : σ}
    (met : c.Meets rely (demands call) s.state s.state) (runs : c.run s.state = (pause, u)) :
    Good locked always idle rely frame demands { s with state := u, holder := waiting call pause } ∧
      (demands call).At s.state u pause.outcome := by
  obtain ⟨ends, rest⟩ := met.run runs
  refine ⟨⟨guarded.holds_always needs ends, fun none => ?_, fun task same => ?_, fun task member => ?_⟩, ends⟩
  · refine guarded.holds_idle needs ends fun r same => ?_
    cases pause <;> simp [Pause.outcome, waiting] at same none
  · cases pause with
    | returned | raised => cases same
    | waits r k =>
      obtain rfl := Option.some.inj same
      exact ⟨needs, rest r k rfl⟩
  · exact (good.free task member).after guarded (guarded.holds_frame needs ends)

/-- A stretch of another call, or an event. -/
theorem Good.others (guarded : Guarded body locked event always idle rely frame demands)
    (good : Good locked always idle rely frame demands s) {u : σ} (others : rely s.state u)
    {free : List (Waiting σ ε ρ β α κ)} (rest : ∀ task ∈ free, Drifts locked frame demands u task) :
    Good locked always idle rely frame demands { s with state := u, free := free } where
  always := guarded.always_rely good.always others
  idle none := guarded.idle_rely (good.idle none) others
  holder task same := by
    obtain ⟨needs, goes⟩ := good.holder task same
    exact ⟨needs, fun answer t more => goes answer t (guarded.trans others more)⟩
  free := rest

theorem waiting_drifts {call : κ} (runs_free : ¬ locked call) {c : Coroutine σ ε ρ β α}
    {pause : Pause σ ε ρ β α} {u v : σ} (met : c.Meets frame (demands call) u u)
    (runs : c.run u = (pause, v)) : (demands call).At u v pause.outcome ∧
      ∀ task ∈ (waiting call pause).toList, Drifts locked frame demands v task := by
  obtain ⟨ends, rest⟩ := met.run runs
  refine ⟨ends, fun task member => ?_⟩
  cases pause with
  | returned | raised => cases member
  | waits r k =>
    obtain rfl := List.mem_singleton.mp member
    exact ⟨runs_free, rest r k rfl⟩

theorem Good.step (guarded : Guarded body locked event always idle rely frame demands)
    (good : Good locked always idle rely frame demands s) (taken : Step body locked event s label t) :
    Good locked always idle rely frame demands t ∧ label.Met demands s.state t.state := by
  cases taken with
  | enter call needs unheld runs =>
    exact good.hold guarded needs (guarded.holds needs good.always (good.idle unheld)) runs
  | resume answer held runs =>
    obtain ⟨needs, goes⟩ := good.holder _ held
    exact good.hold guarded needs (goes _ _ (guarded.refl _)) runs
  | @spawn pause u call runs_free runs =>
    obtain ⟨ends, new⟩ := waiting_drifts runs_free (guarded.free s.state runs_free) runs
    have others : rely s.state u := guarded.free_rely runs_free ends
    refine ⟨good.others guarded others fun task member => ?_, ends⟩
    rcases List.mem_append.mp member with here | old
    · exact new task here
    · exact (good.free task old).after guarded (guarded.rely_frame others)
  | @wake before after pause u task answer whole runs =>
    obtain ⟨runs_free, goes⟩ := good.free task (whole ▸ by simp)
    have same : frame s.state s.state := guarded.rely_frame (guarded.refl s.state)
    obtain ⟨ends, new⟩ := waiting_drifts runs_free (goes answer s.state same) runs
    have others : rely s.state u := guarded.free_rely runs_free ends
    have kept (other) (old : other ∈ s.free) : Drifts locked frame demands u other :=
      (good.free other old).after guarded (guarded.rely_frame others)
    refine ⟨good.others guarded others fun other member => ?_, ends⟩
    simp only [List.mem_append] at member
    rcases member with (old | here) | old
    · exact kept other (whole ▸ List.mem_append_left _ old)
    · exact new other here
    · exact kept other (whole ▸ List.mem_append_right _ (List.mem_cons_of_mem _ old))
  | event i happens =>
    have others := guarded.event_rely happens
    exact ⟨good.others guarded others fun task member =>
      (good.free task member).after guarded (guarded.rely_frame others), trivial⟩

/-- Every stretch of a run meets its demands. -/
theorem Good.run (guarded : Guarded body locked event always idle rely frame demands)
    {history : List (Taken (Calls σ ε ρ β α κ) (Label ε ρ α κ ι))}
    (run : Run (Step body locked event) s history t) (good : Good locked always idle rely frame demands s) :
    Good locked always idle rely frame demands t ∧
      ∀ e ∈ history, e.label.Met demands e.before.state e.after.state := by
  induction run with
  | nil => exact ⟨good, by simp⟩
  | @snoc history u label v _ taken ih =>
    obtain ⟨reached, earlier⟩ := ih
    obtain ⟨next, met⟩ := reached.step guarded taken
    refine ⟨next, fun e member => ?_⟩
    rcases List.mem_append.mp member with old | last
    · exact earlier e old
    · obtain rfl := List.mem_singleton.mp last
      exact met

end
end Calls
