import Bitchat.Data.Run
import Bitchat.Data.SlidingWindow
import Bitchat.Mesh.Router
import Mathlib.Algebra.Order.Floor.Ring
import Mathlib.Data.Rat.Floor
import Mathlib.Tactic.Linarith

/-! The rate limit of a router in every run of its checks and prunings. The table keeps of each
sender what a later check may still count, whatever is pruned and whoever else sends. -/
namespace Bitchat.Mesh.MeshRouter
open Protocol SlidingWindow

inductive LimiterCall where
  | check (senderHex : Str) (now : Seconds)
  | prune (maxAge now : Seconds)

def LimiterCall.now : LimiterCall → Seconds
  | .check _ now | .prune _ now => now

/-- A call, and whether it refused a packet. -/
structure LimiterVerdict where
  call : LimiterCall
  refused : Bool

def limiter (settings : RouterSettings) (call : LimiterCall) (s : MeshRouter) : Bool × MeshRouter :=
  match call with
  | .check senderHex now => s.isRateLimited settings now senderHex
  | .prune maxAge now => (false, s.pruneRateLimiter settings maxAge now)

def LimiterStep (settings : RouterSettings) (s : MeshRouter) (label : LimiterVerdict)
    (t : MeshRouter) : Prop := s.limiter settings label.call = (label.refused, t)

abbrev LimiterHistory := List (Taken MeshRouter LimiterVerdict)

/-- The time of a check of this sender's packet. -/
def LimiterVerdict.timeOf (sender : Str) (label : LimiterVerdict) : Option Seconds :=
  match label.call with
  | .check senderHex now => if senderHex = sender then some now else none
  | .prune _ _ => none

/-- When the sender's packets were checked. -/
def checks (sender : Str) (history : LimiterHistory) : List Seconds :=
  history.filterMap fun e => e.label.timeOf sender

/-- Whether each of them was refused. -/
def verdicts (sender : Str) (history : LimiterHistory) : List Bool :=
  history.filterMap fun e => (e.label.timeOf sender).map fun _ => e.label.refused

/-- When the sender's packets were let through. -/
def letThrough (sender : Str) (history : LimiterHistory) : List Seconds :=
  (history.filter fun e => !e.label.refused).filterMap fun e => e.label.timeOf sender

/-- The times that the clock puts at most a second ago. -/
def lastSecond (settings : RouterSettings) : SlidingWindow Seconds where
  within now time := settings.clock.since now time ≤ 1
  leaves after inside := decide_eq_true ((Clock.since_mono after).trans (of_decide_eq_true inside))

/-- The timestamps that the table keeps of a sender. -/
def kept (sender : Str) (s : MeshRouter) : List Seconds := (s.rateLimiter.get? sender).getD []

section Calls
variable {settings : RouterSettings} {s t : MeshRouter} {sender other : Str} {maxAge now later : Seconds}

theorem kept_remember {times : List Seconds} :
    ({ s with rateLimiter := s.rateLimiter.set sender times }).kept other =
      if other = sender then times else s.kept other := by
  unfold kept
  rw [InsertionMap.get?_set]
  split
  · rfl
  · rfl

/-- Pruning drops only what no later check counts. -/
theorem pruneRateLimiter_kept (aged : 1 ≤ maxAge) (after : now ≤ later) :
    recent (lastSecond settings) later ((s.pruneRateLimiter settings maxAge now).kept sender) =
      recent (lastSecond settings) later (s.kept sender) := by
  unfold kept pruneRateLimiter
  rw [InsertionMap.get?_filter]
  cases held : s.rateLimiter.get? sender with
  | none => rfl
  | some times =>
    rw [Option.filter_some]
    cases greatest : times.max? with
    | none =>
      obtain rfl := List.max?_eq_none_iff.mp greatest
      rfl
    | some newest =>
      by_cases fresh : settings.clock.since now newest ≤ maxAge
      · rw [if_pos (decide_eq_true fresh)]
      · rw [if_neg (mt of_decide_eq_true fresh)]
        symm
        apply recent_eq_nil _ after
        intro time member inside
        have before : time ≤ newest := (List.max?_le_iff greatest).mp le_rfl time member
        have shorter : settings.clock.since now newest ≤ settings.clock.since now time :=
          settings.clock.mono (sub_le_sub_left before now)
        exact fresh ((shorter.trans (of_decide_eq_true inside)).trans aged)

/-- A check admits by what is kept of the sender, and keeps of the others what it kept. -/
theorem isRateLimited_kept {refused : Bool} (other : Str) (positive : 1 ≤ settings.rateLimitPerPeer)
    (after : now ≤ later) (checked : s.isRateLimited settings now sender = (refused, t)) :
    refused = !admits settings.rateLimitPerPeer (lastSecond settings) (s.kept sender) now ∧
    recent (lastSecond settings) later (t.kept other) = recent (lastSecond settings) later
      (if other = sender then enter settings.rateLimitPerPeer (lastSecond settings) (s.kept sender) now
        else s.kept other) := by
  unfold isRateLimited at checked
  generalize cleared : (if 1000 < s.rateLimiter.size then s.pruneRateLimiter settings 1 now else s) = u at checked
  have same (name : Str) {at' : Seconds} (passed : now ≤ at') :
      recent (lastSecond settings) at' (u.kept name) = recent (lastSecond settings) at' (s.kept name) := by
    subst cleared
    split
    · exact pruneRateLimiter_kept le_rfl passed
    · rfl
  suffices result : refused = !admits settings.rateLimitPerPeer (lastSecond settings) (u.kept sender) now ∧
      recent (lastSecond settings) later (t.kept sender) =
        recent (lastSecond settings) later
          (enter settings.rateLimitPerPeer (lastSecond settings) (u.kept sender) now) ∧
      ∀ name ≠ sender, t.kept name = u.kept name by
    obtain ⟨verdict, mine, theirs⟩ := result
    rw [admits_congr (same sender le_rfl)] at verdict
    refine ⟨verdict, ?_⟩
    split
    · next is_sender =>
      rw [is_sender, mine, recent_enter (same sender le_rfl) after]
    · next different => rw [theirs other different, same other after]
  cases held : u.rateLimiter.get? sender with
  | none =>
    simp only [held] at checked
    obtain ⟨rfl, rfl⟩ := Prod.mk.inj checked
    have nothing : u.kept sender = [] := by simp [kept, held]
    have first : admits settings.rateLimitPerPeer (lastSecond settings) ([] : List Seconds) now = true :=
      decide_eq_true positive
    refine ⟨?_, ?_, fun name different => ?_⟩
    · rw [nothing, first]
      rfl
    · rw [kept_remember, if_pos rfl, nothing, enter, if_pos first]
      rfl
    · rw [kept_remember, if_neg different]
  | some timestamps =>
    have stored : u.kept sender = timestamps := by simp [kept, held]
    simp only [held] at checked
    have valid : (timestamps.filter fun time => settings.clock.since now time ≤ 1) =
        recent (lastSecond settings) now timestamps := rfl
    rw [stored]
    rw [valid] at checked
    by_cases empty : recent (lastSecond settings) now timestamps = []
    · rw [if_pos empty] at checked
      obtain ⟨rfl, rfl⟩ := Prod.mk.inj checked
      have admitted : admits settings.rateLimitPerPeer (lastSecond settings) timestamps now = true := by
        rw [admits, empty]
        exact decide_eq_true positive
      have gone : recent (lastSecond settings) later timestamps = [] := by
        rw [← recent_recent timestamps after, empty]
        rfl
      refine ⟨by rw [admitted]; rfl, ?_, fun name different => ?_⟩
      · rw [kept_remember, if_pos rfl, enter, if_pos admitted, recent_append, gone, List.nil_append]
      · rw [kept_remember, if_neg different]
    · rw [if_neg empty] at checked
      by_cases full : settings.rateLimitPerPeer ≤ (recent (lastSecond settings) now timestamps).length
      · rw [if_pos full] at checked
        obtain ⟨rfl, rfl⟩ := Prod.mk.inj checked
        have refused : admits settings.rateLimitPerPeer (lastSecond settings) timestamps now = false :=
          decide_eq_false (not_lt.mpr full)
        refine ⟨by rw [refused]; rfl, ?_, fun name different => ?_⟩
        · rw [kept_remember, if_pos rfl, enter, if_neg (by simp [refused]), recent_recent _ after]
        · rw [kept_remember, if_neg different]
      · rw [if_neg full] at checked
        obtain ⟨rfl, rfl⟩ := Prod.mk.inj checked
        have admitted : admits settings.rateLimitPerPeer (lastSecond settings) timestamps now = true :=
          decide_eq_true (not_le.mp full)
        refine ⟨by rw [admitted]; rfl, ?_, fun name different => ?_⟩
        · rw [kept_remember, if_pos rfl, enter, if_pos admitted]
          rw [recent_append, recent_append, recent_recent _ after]
        · rw [kept_remember, if_neg different]

end Calls

/-- The clock of a history does not run backwards. -/
def Clocked (history : LimiterHistory) : Prop :=
  history.Pairwise fun e f => e.label.call.now ≤ f.label.call.now

/-- Explicit prunings spare the last second. -/
def Spares (history : LimiterHistory) : Prop :=
  ∀ e ∈ history, ∀ maxAge now, e.label.call = .prune maxAge now → 1 ≤ maxAge

section Runs
variable {settings : RouterSettings} {start s t : MeshRouter} {history : LimiterHistory}
  {e : Taken MeshRouter LimiterVerdict} {sender : Str} {now : Seconds}

theorem LimiterVerdict.timeOf_eq_some {label : LimiterVerdict} (mine : label.timeOf sender = some now) :
    label.call = .check sender now := by
  unfold timeOf at mine
  cases call : label.call with
  | prune maxAge at' => simp [call] at mine
  | check senderHex at' =>
    simp only [call, Option.ite_none_right_eq_some, Option.some.injEq] at mine
    rw [mine.1, mine.2]

theorem checks_snoc : checks sender (history ++ [e]) =
    checks sender history ++ (e.label.timeOf sender).toList := by
  cases mine : e.label.timeOf sender <;> simp [checks, mine]

theorem verdicts_snoc : verdicts sender (history ++ [e]) =
    verdicts sender history ++ ((e.label.timeOf sender).map fun _ => e.label.refused).toList := by
  cases mine : e.label.timeOf sender <;> simp [verdicts, mine]

theorem letThrough_snoc : letThrough sender (history ++ [e]) =
    letThrough sender history ++ if e.label.refused then [] else (e.label.timeOf sender).toList := by
  cases refused : e.label.refused <;> cases mine : e.label.timeOf sender <;>
    simp [letThrough, refused, mine]

/-- A call that is no check of the sender changes nothing that a later check counts. -/
theorem limiter_others {label : LimiterVerdict} {later : Seconds}
    (positive : 1 ≤ settings.rateLimitPerPeer)
    (aged : ∀ maxAge now, label.call = .prune maxAge now → 1 ≤ maxAge)
    (taken : LimiterStep settings s label t) (others : label.timeOf sender = none)
    (after : label.call.now ≤ later) :
    recent (lastSecond settings) later (t.kept sender) =
      recent (lastSecond settings) later (s.kept sender) := by
  obtain ⟨call, refused⟩ := label
  cases call with
  | prune maxAge now =>
    obtain ⟨_, rfl⟩ := Prod.mk.inj taken
    exact pruneRateLimiter_kept (aged maxAge now rfl) after
  | check senderHex now =>
    have different : sender ≠ senderHex := by
      rintro rfl
      simp [LimiterVerdict.timeOf] at others
    rw [(isRateLimited_kept sender positive after taken).2, if_neg different]

/-- Whatever is counted of a sender later is in the table, and nothing else. -/
theorem kept_eq_letThrough (sender : Str) (positive : 1 ≤ settings.rateLimitPerPeer)
    (run : Run (LimiterStep settings) start history s) (empty : start.rateLimiter = .empty)
    (clocked : Clocked history) (spares : Spares history) :
    verdicts sender history =
      refusals settings.rateLimitPerPeer (lastSecond settings) [] (checks sender history) ∧
    letThrough sender history =
      admitted settings.rateLimitPerPeer (lastSecond settings) (checks sender history) ∧
    ∀ later, (∀ e ∈ history, e.label.call.now ≤ later) →
      recent (lastSecond settings) later (s.kept sender) =
        recent (lastSecond settings) later (letThrough sender history) := by
  induction run with
  | nil => exact ⟨rfl, rfl, fun later _ => by rw [kept, empty]; rfl⟩
  | @snoc history s label t _ taken ih =>
    obtain ⟨ordered, _, last⟩ := List.pairwise_append.mp clocked
    obtain ⟨told, passed, tracks⟩ := ih ordered fun e member => spares e (List.mem_append_left _ member)
    have before : ∀ e ∈ history, e.label.call.now ≤ label.call.now :=
      fun e member => last e member _ (List.mem_singleton_self _)
    have reached {later : Seconds} (all : ∀ e ∈ history ++ [⟨s, label, t⟩], e.label.call.now ≤ later) :
        label.call.now ≤ later := all ⟨s, label, t⟩ (by simp)
    rw [verdicts_snoc, checks_snoc, letThrough_snoc]
    cases mine : label.timeOf sender with
    | none =>
      have aged : ∀ maxAge now, label.call = .prune maxAge now → 1 ≤ maxAge :=
        spares ⟨s, label, t⟩ (by simp)
      refine ⟨by simpa using told, by simpa using passed, fun later all => ?_⟩
      rw [limiter_others positive aged taken mine (reached all), tracks later fun e member =>
        all e (List.mem_append_left _ member)]
      simp
    | some now =>
      obtain ⟨call, refused⟩ := label
      obtain rfl := LimiterVerdict.timeOf_eq_some mine
      have counted := tracks now before
      have verdict : refused = !admits settings.rateLimitPerPeer (lastSecond settings) (s.kept sender) now :=
        (isRateLimited_kept (t := t) sender positive le_rfl taken).1
      rw [admits_congr counted] at verdict
      have admits_now : letThrough sender history ++ (if refused then [] else [now]) =
          enter settings.rateLimitPerPeer (lastSecond settings) (letThrough sender history) now := by
        rw [verdict, enter]
        cases admits settings.rateLimitPerPeer (lastSecond settings) (letThrough sender history) now <;> simp
      simp only [Option.map_some, Option.toList_some, admits_now]
      refine ⟨?_, ?_, fun later all => ?_⟩
      · rw [refusals_snoc, told, verdict, passed]
      · rw [admitted_snoc, passed]
      · have after : now ≤ later := reached all
        rw [(isRateLimited_kept sender positive after taken).2, if_pos rfl, recent_enter counted after]

/-- The rate limit of a sender is exact in the differences that the clock gives, and no other
sender has a part in it. -/
theorem rate_limit_exact (positive : 1 ≤ settings.rateLimitPerPeer)
    (run : Run (LimiterStep settings) start history s) (empty : start.rateLimiter = .empty)
    (clocked : Clocked history) (spares : Spares history) (sender : Str) :
    (∀ earlier e later, history = earlier ++ e :: later → ∀ now, e.label.call = .check sender now →
      (e.label.refused = false ↔ (((letThrough sender earlier).countP
        fun time => settings.clock.since now time ≤ 1 : Nat) : Int) < settings.rateLimitPerPeer)) ∧
    (∀ last, (((letThrough sender history).countP fun time =>
      settings.clock.since last time ≤ 1 ∧ time ≤ last : Nat) : Int) ≤ settings.rateLimitPerPeer) ∧
    (∀ first, (((letThrough sender history).countP
      fun time => first ≤ time ∧ time ≤ first + 1 : Nat) : Int) ≤ settings.rateLimitPerPeer) ∧
    ∀ start' s' history', Run (LimiterStep settings) start' history' s' →
      start'.rateLimiter = .empty → Clocked history' → Spares history' →
      checks sender history' = checks sender history →
      verdicts sender history' = verdicts sender history := by
  obtain ⟨told, passed, _⟩ := kept_eq_letThrough sender positive run empty clocked spares
  refine ⟨?_, fun last => ?_, fun first => ?_, ?_⟩
  · rintro earlier ⟨before, ⟨call, refused⟩, after⟩ later rfl now rfl
    obtain ⟨run', taken⟩ := run.split
    obtain ⟨clocked', _, last⟩ := List.pairwise_append.mp clocked
    have past : ∀ f ∈ earlier, f.label.call.now ≤ now := fun f member => last f member _ List.mem_cons_self
    obtain ⟨_, _, tracks⟩ := kept_eq_letThrough sender positive run' empty clocked'
      fun f member => spares f (List.mem_append_left _ member)
    have verdict : refused = !admits settings.rateLimitPerPeer (lastSecond settings) (before.kept sender) now :=
      (isRateLimited_kept (t := after) sender positive le_rfl taken).1
    have window : (letThrough sender earlier).countP (fun time => settings.clock.since now time ≤ 1) =
        (recent (lastSecond settings) now (letThrough sender earlier)).length :=
      List.countP_eq_length_filter
    rw [admits_congr (tracks now past)] at verdict
    simp only [window, verdict, admits, Bool.not_eq_false', decide_eq_true_eq]
  · rw [passed]
    apply countP_admitted_le _ (zero_le_one.trans positive)
    intro now time inside within
    simp only [decide_eq_true_eq] at inside within
    exact decide_eq_true ((Clock.since_mono inside.2).trans within.1)
  · rw [passed]
    apply countP_admitted_le _ (zero_le_one.trans positive)
    intro now time inside within
    simp only [decide_eq_true_eq] at inside within
    exact decide_eq_true (Clock.since_le_one (inside.2.trans (add_le_add_left within.1 1)))
  · intro start' s' history' run' empty' clocked' spares' same
    rw [(kept_eq_letThrough sender positive run' empty' clocked' spares').1, told, same]

end Runs

/-- The history of these calls. -/
def recorded (settings : RouterSettings) (s : MeshRouter) : List LimiterCall → LimiterHistory :=
  Run.answered (limiter settings) LimiterVerdict.mk s

theorem recorded_run (settings : RouterSettings) (s : MeshRouter) (calls : List LimiterCall) :
    ∃ t, Run (LimiterStep settings) s (recorded settings s calls) t :=
  ⟨_, Run.of_answered (limiter settings) LimiterVerdict.mk fun _ _ _ => rfl⟩

def spammer : Str := "spammer".toList

def threeASecond : RouterSettings := { localPeerId := List.replicate 8 0, rateLimitPerPeer := 3 }

/-- A pruning and another sender come between the spammer's packets. -/
def spamming : LimiterHistory := recorded threeASecond {} [.check spammer 2000,
  .check spammer (2000 + 1 / 10), .prune 1 (2000 + 1 / 10), .check spammer (2000 + 2 / 10),
  .check [] (2000 + 3 / 10), .check spammer (2000 + 3 / 10), .check spammer 2002]

theorem spammer_refused : verdicts spammer spamming = [false, false, false, true, false] ∧
    (((letThrough spammer spamming).countP fun time => 2000 ≤ time ∧ time ≤ 2000 + 1 : Nat) : Int) ≤
      threeASecond.rateLimitPerPeer := by
  obtain ⟨t, run⟩ := recorded_run threeASecond {} _
  have clocked : Clocked spamming := by
    simp only [Clocked, spamming, recorded, Run.answered, LimiterCall.now]
    norm_num
  have spares : Spares spamming := by simp [Spares, spamming, recorded, Run.answered]
  exact ⟨by decide +kernel, (rate_limit_exact (by decide) run rfl clocked spares spammer).2.2.1 2000⟩

section Rounded

/-- Rounds to the nearest multiple of 2^-52, as doubles between one and two are. -/
def doubles : Clock where
  round x := ⌊x * 2 ^ 52 + 1 / 2⌋ / 2 ^ 52
  mono x y le := by
    have scaled : x * 2 ^ 52 + 1 / 2 ≤ y * 2 ^ 52 + 1 / 2 := by
      linarith
    have floors : ((⌊x * 2 ^ 52 + 1 / 2⌋ : Int) : Seconds) ≤ ⌊y * 2 ^ 52 + 1 / 2⌋ :=
      Int.cast_le.mpr (Int.floor_mono scaled)
    exact div_le_div_of_nonneg_right floors (by norm_num)
  one := by norm_num

def oneASecond : RouterSettings :=
  { localPeerId := List.replicate 8 0, rateLimitPerPeer := 1, clock := doubles }

/-- A packet at the double 0.1 and one at the double 1.1, a little over a second later. -/
def twice : LimiterHistory := recorded oneASecond {}
  [.check spammer (3602879701896397 / 2 ^ 55), .check spammer (2476979795053773 / 2 ^ 51)]

/-- The difference is rounded to one second, and the second packet is refused though none was let
through in the exact second before it. -/
theorem rounded_second_refused : ¬ ∀ (settings : RouterSettings) (start s : MeshRouter)
    (history : LimiterHistory) (sender : Str), 1 ≤ settings.rateLimitPerPeer →
    Run (LimiterStep settings) start history s → start.rateLimiter = .empty → Clocked history →
    Spares history → ∀ earlier e later, history = earlier ++ e :: later → ∀ now,
      e.label.call = .check sender now → (e.label.refused = false ↔
        (((letThrough sender earlier).countP fun time => now - 1 ≤ time ∧ time ≤ now : Nat) : Int) <
          settings.rateLimitPerPeer) := by
  intro every
  obtain ⟨t, run⟩ := recorded_run oneASecond {} _
  have clocked : Clocked twice := by
    simp only [Clocked, twice, recorded, Run.answered, LimiterCall.now]
    norm_num
  have spares : Spares twice := by simp [Spares, twice, recorded, Run.answered]
  obtain ⟨second, last⟩ : ∃ second, twice.drop 1 = [second] := ⟨_, rfl⟩
  have both : twice = twice.take 1 ++ second :: [] := by rw [← last, List.take_append_drop]
  have call : [second].map (fun e => e.label.call) = [.check spammer (2476979795053773 / 2 ^ 51)] := by
    rw [← last]
    rfl
  have refused : [second].map (fun e => e.label.refused) = [true] := by
    rw [← last]
    decide +kernel
  have unseen : (letThrough spammer (twice.take 1)).countP (fun time =>
      (2476979795053773 / 2 ^ 51 : Seconds) - 1 ≤ time ∧ time ≤ 2476979795053773 / 2 ^ 51) = 0 := by
    decide +kernel
  have passes := (every oneASecond {} t twice spammer (by decide) run rfl clocked spares _ second [] both _
    (List.cons.inj call).1).mpr (by rw [unseen]; decide)
  exact Bool.false_ne_true (passes.symm.trans (List.cons.inj refused).1)

end Rounded

end Bitchat.Mesh.MeshRouter
