import Mathlib.Data.List.Basic

/-! Finite runs of a labelled transition relation, kept with every step they
took. An invariant of single steps holds at every state of a run. -/

universe u v

variable {σ : Type u} {ι : Type v}

/-- One step taken: the state before, the label, the state after. -/
structure Taken (σ : Type u) (ι : Type v) where
  before : σ
  label : ι
  after : σ

inductive Run (step : σ → ι → σ → Prop) (start : σ) : List (Taken σ ι) → σ → Prop where
  | nil : Run step start [] start
  | snoc {history s label t} : Run step start history s → step s label t →
      Run step start (history ++ [⟨s, label, t⟩]) t

namespace Run
variable {step : σ → ι → σ → Prop} {start s : σ} {history : List (Taken σ ι)}

theorem invariant {P : σ → Prop} (run : Run step start history s) (initial : P start)
    (keep : ∀ {s label t}, P s → step s label t → P t) : P s := by
  induction run with
  | nil => exact initial
  | snoc _ taken ih => exact keep ih taken

/-- An invariant that a step keeps under a condition holds after a run whose steps all meet it. -/
theorem guarded {P : σ → Prop} {C : σ → ι → Prop} (run : Run step start history s) (initial : P start)
    (keep : ∀ {s label t}, P s → C s label → step s label t → P t)
    (meets : ∀ e ∈ history, C e.before e.label) : P s := by
  induction run with
  | nil => exact initial
  | @snoc history s label t _ taken ih =>
    have earlier := ih fun e he => meets e (List.mem_append_left _ he)
    exact keep earlier (meets ⟨s, label, t⟩ (by simp)) taken

/-- A step of a run with one more at its end is that one or an earlier step. -/
theorem last_or_earlier {earlier later : List (Taken σ ι)} {e last : Taken σ ι}
    (whole : earlier ++ e :: later = history ++ [last]) :
    (earlier = history ∧ e = last ∧ later = []) ∨
      ∃ rest, earlier ++ e :: rest = history ∧ later = rest ++ [last] := by
  rcases List.eq_nil_or_concat later with rfl | ⟨rest, x, rfl⟩
  · obtain ⟨same, ends⟩ := List.append_inj' whole rfl
    exact Or.inl ⟨same, (List.cons.inj ends).1, rfl⟩
  · rw [List.concat_eq_append, ← List.cons_append, ← List.append_assoc] at whole
    obtain ⟨sooner, ends⟩ := List.append_inj' whole rfl
    obtain rfl := (List.cons.inj ends).1
    exact Or.inr ⟨rest, sooner, List.concat_eq_append⟩

/-- A run up to one of its steps, and that step. -/
theorem split {earlier later : List (Taken σ ι)} {e : Taken σ ι}
    (run : Run step start (earlier ++ e :: later) s) :
    Run step start earlier e.before ∧ step e.before e.label e.after := by
  generalize whole : earlier ++ e :: later = history at run
  induction run generalizing later with
  | nil => simp at whole
  | @snoc history s label t before taken ih =>
    obtain ⟨rfl, rfl, rfl⟩ | ⟨rest, sooner, rfl⟩ := last_or_earlier whole
    · exact ⟨before, taken⟩
    · exact ih sooner

theorem stepped {e : Taken σ ι} (run : Run step start history s) (member : e ∈ history) :
    step e.before e.label e.after := by
  obtain ⟨earlier, later, rfl⟩ := List.append_of_mem member
  exact run.split.2

theorem up_to {e : Taken σ ι} (run : Run step start history s) (member : e ∈ history) :
    ∃ earlier, Run step start (earlier ++ [e]) e.after ∧ earlier ++ [e] ⊆ history := by
  obtain ⟨earlier, later, rfl⟩ := List.append_of_mem member
  obtain ⟨before, taken⟩ := run.split
  exact ⟨earlier, before.snoc taken, List.append_subset.mpr ⟨List.subset_append_left .., by simp⟩⟩

/-- What holds at one of its states holds in the end if no step since has ended it. -/
theorem persists {P : σ → Prop} {earlier later : List (Taken σ ι)} {e : Taken σ ι}
    (run : Run step start (earlier ++ e :: later) s) (first : P e.before)
    (keeps : ∀ x ∈ e :: later, P x.before → P x.after) : P s := by
  generalize whole : earlier ++ e :: later = history at run
  induction run generalizing later with
  | nil => simp at whole
  | @snoc history s label t before taken ih =>
    obtain ⟨rfl, rfl, rfl⟩ | ⟨rest, sooner, rfl⟩ := last_or_earlier whole
    · exact keeps _ List.mem_cons_self first
    · have reached : P s := by
        apply ih _ sooner
        exact fun x member => keeps x (List.mem_append_left [_] member)
      exact keeps ⟨s, label, t⟩ (by simp) reached

/-- When a step meets a demand exactly under a condition, and the condition keeps what that
rests on, a run meets the demand exactly when each of its steps meets the condition. -/
theorem meets_iff {P : σ → Prop} {Q : σ → ι → σ → Prop} {C : σ → ι → Prop}
    (run : Run step start history s) (initial : P start)
    (exact : ∀ {s label t}, P s → step s label t → (Q s label t ↔ C s label))
    (keep : ∀ {s label t}, P s → C s label → step s label t → P t) :
    (∀ e ∈ history, Q e.before e.label e.after) ↔ ∀ e ∈ history, C e.before e.label := by
  constructor
  · intro met
    suffices general : P s ∧ ∀ e ∈ history, C e.before e.label from general.2
    induction run with
    | nil => exact ⟨initial, by simp⟩
    | @snoc history s label t _ taken ih =>
      obtain ⟨last, earlier⟩ := ih fun e he => met e (List.mem_append_left _ he)
      have here : Q s label t := met ⟨s, label, t⟩ (by simp)
      have condition := (exact last taken).mp here
      refine ⟨keep last condition taken, fun e he => ?_⟩
      rcases List.mem_append.mp he with he | he
      · exact earlier e he
      · exact List.mem_singleton.mp he ▸ condition
  · intro all
    suffices general : P s ∧ ∀ e ∈ history, Q e.before e.label e.after from general.2
    induction run with
    | nil => exact ⟨initial, by simp⟩
    | @snoc history s label t _ taken ih =>
      obtain ⟨last, earlier⟩ := ih fun e he => all e (List.mem_append_left _ he)
      have condition : C s label := all ⟨s, label, t⟩ (by simp)
      refine ⟨keep last condition taken, fun e he => ?_⟩
      rcases List.mem_append.mp he with he | he
      · exact earlier e he
      · exact List.mem_singleton.mp he ▸ (exact last taken).mpr condition

/-- When a step keeps the invariant exactly under a condition, a run keeps it exactly
when each of its steps meets the condition. -/
theorem invariant_iff {P : σ → Prop} {C : σ → ι → Prop} (run : Run step start history s)
    (initial : P start) (exact : ∀ {s label t}, P s → step s label t → (P t ↔ C s label)) :
    (∀ e ∈ history, P e.after) ↔ ∀ e ∈ history, C e.before e.label :=
  run.meets_iff (Q := fun _ _ t => P t) initial exact fun p c taken => (exact p taken).mpr c

section Deterministic
variable (next : ι → σ → σ)

/-- The steps of the run in which each label has one outcome. -/
def trace (s : σ) : List ι → List (Taken σ ι)
  | [] => []
  | label :: rest => ⟨s, label, next label s⟩ :: trace (next label s) rest

theorem trace_append (s : σ) (earlier later : List ι) : trace next s (earlier ++ later) =
    trace next s earlier ++ trace next (earlier.foldl (fun s label => next label s) s) later := by
  induction earlier generalizing s with
  | nil => rfl
  | cons label rest ih => rw [List.cons_append, trace, ih, trace, List.foldl_cons, List.cons_append]

theorem append_trace {labels : List ι} (run : Run step start history s)
    (able : ∀ s, ∀ label ∈ labels, step s label (next label s)) :
    Run step start (history ++ trace next s labels) (labels.foldl (fun s label => next label s) s) := by
  induction labels generalizing history s with
  | nil => simpa [trace] using run
  | cons label rest ih =>
    have first := run.snoc (able s label List.mem_cons_self)
    have whole := ih first fun s label member => able s label (List.mem_cons_of_mem _ member)
    rwa [List.append_assoc] at whole

/-- A list of labels that are always possible is a run. -/
theorem of_trace {labels : List ι} (able : ∀ s, ∀ label ∈ labels, step s label (next label s)) :
    Run step start (trace next start labels) (labels.foldl (fun s label => next label s) start) :=
  append_trace next .nil able

end Deterministic

section Answering
variable {κ ο : Type*} (perform : κ → σ → ο × σ) (label : κ → ο → ι)

/-- The steps of the run in which each call has one outcome, labelled with its answer. -/
def answered (s : σ) : List κ → List (Taken σ ι)
  | [] => []
  | call :: rest =>
    let (answer, t) := perform call s
    ⟨s, label call answer, t⟩ :: answered t rest

theorem mem_answered {calls : List κ} {e : Taken σ ι} (member : e ∈ answered perform label s calls) :
    ∃ call ∈ calls, e = ⟨e.before, label call (perform call e.before).1, (perform call e.before).2⟩ := by
  induction calls generalizing s with
  | nil => cases member
  | cons call rest ih =>
    rcases List.mem_cons.mp member with rfl | later
    · exact ⟨call, List.mem_cons_self, rfl⟩
    · obtain ⟨next, listed, same⟩ := ih later
      exact ⟨next, List.mem_cons_of_mem _ listed, same⟩

/-- Calls each of which is possible where it is made are a run. -/
theorem of_steps {calls : List κ}
    (able : ∀ e ∈ answered perform label start calls, step e.before e.label e.after) :
    Run step start (answered perform label start calls)
      (calls.foldl (fun s call => (perform call s).2) start) := by
  suffices general : ∀ {history s}, Run step start history s →
      (∀ e ∈ answered perform label s calls, step e.before e.label e.after) → Run step start
        (history ++ answered perform label s calls) (calls.foldl (fun s call => (perform call s).2) s) from
    general .nil able
  clear able
  induction calls with
  | nil => exact fun run _ => by simpa [answered] using run
  | cons call rest ih =>
    intro history s run able
    have whole := ih (run.snoc (able _ List.mem_cons_self)) fun e later => able e (List.mem_cons_of_mem _ later)
    rwa [List.append_assoc] at whole

theorem of_answered {calls : List κ}
    (able : ∀ s, ∀ call ∈ calls, step s (label call (perform call s).1) (perform call s).2) :
    Run step start (answered perform label start calls)
      (calls.foldl (fun s call => (perform call s).2) start) := by
  apply of_steps
  intro e member
  obtain ⟨call, listed, same⟩ := mem_answered perform label member
  rw [same]
  exact able e.before call listed

end Answering
end Run
