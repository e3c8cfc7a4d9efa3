import Mathlib.Data.List.Induction
import Mathlib.Order.Defs.PartialOrder

/-! A limit on the calls of every window of time: a call is admitted when the window that ends
with it holds fewer admitted calls than the limit. Then no window holds more. -/

universe u

/-- Which times are still in the window that ends now. A time that has left it stays out of it. -/
structure SlidingWindow (α : Type u) [Preorder α] where
  within : (now time : α) → Bool
  leaves : ∀ {now later time}, now ≤ later → within later time → within now time

namespace SlidingWindow
variable {α : Type u} [Preorder α] (limit : Int) (window : SlidingWindow α)

/-- The times that are in the window. -/
def recent (now : α) (times : List α) : List α := times.filter (window.within now)

def admits (earlier : List α) (now : α) : Bool := (recent window now earlier).length < limit

def enter (earlier : List α) (now : α) : List α :=
  if admits limit window earlier now then earlier ++ [now] else earlier

/-- The admitted ones of these calls. -/
def admitted (calls : List α) : List α := calls.foldl (enter limit window) []

/-- Whether each of these calls is refused, after `earlier` were admitted. -/
def refusals (earlier : List α) : List α → List Bool
  | [] => []
  | now :: later =>
    (!admits limit window earlier now) :: refusals (enter limit window earlier now) later

variable {limit window} {calls more earlier : List α} {now later : α}

theorem admitted_snoc : admitted limit window (calls ++ [now]) =
    enter limit window (admitted limit window calls) now := by
  rw [admitted, List.foldl_append]
  rfl

theorem refusals_append : refusals limit window earlier (calls ++ more) =
    refusals limit window earlier calls ++
      refusals limit window (calls.foldl (enter limit window) earlier) more := by
  induction calls generalizing earlier with
  | nil => rfl
  | cons call calls ih => simp only [List.cons_append, refusals, ih, List.foldl_cons]

theorem refusals_snoc : refusals limit window [] (calls ++ [now]) =
    refusals limit window [] calls ++ [!admits limit window (admitted limit window calls) now] :=
  refusals_append

theorem recent_append (xs ys : List α) :
    recent window now (xs ++ ys) = recent window now xs ++ recent window now ys := List.filter_append ..

theorem recent_eq_nil {times : List α} (old : ∀ time ∈ times, ¬ window.within now time)
    (after : now ≤ later) : recent window later times = [] :=
  List.filter_eq_nil_iff.mpr fun time member inside => old time member (window.leaves after inside)

/-- What the window keeps is all that a later window needs. -/
theorem recent_recent (times : List α) (after : now ≤ later) :
    recent window later (recent window now times) = recent window later times := by
  rw [recent, recent, recent, List.filter_filter]
  apply List.filter_congr
  intro time _
  rw [Bool.and_eq_left_iff_imp]
  exact window.leaves after

theorem admits_congr {xs ys : List α} (same : recent window now xs = recent window now ys) :
    admits limit window xs now = admits limit window ys now := by
  rw [admits, admits, same]

/-- Lists with the same times in the window admit alike, and are alike in every later window. -/
theorem recent_enter {xs ys : List α} (same : recent window now xs = recent window now ys)
    (after : now ≤ later) :
    recent window later (enter limit window xs now) = recent window later (enter limit window ys now) := by
  have rest : recent window later xs = recent window later ys := by
    rw [← recent_recent xs after, same, recent_recent ys after]
  unfold enter
  rw [admits_congr same]
  split
  · rw [recent_append, recent_append, rest]
  · exact rest

/-- No set of times that see each other in the window has more admitted calls than the limit. -/
theorem countP_enter_le {P : α → Bool} (near : ∀ now time, P now → P time → window.within now time)
    (before : ((earlier.countP P : Nat) : Int) ≤ limit) :
    (((enter limit window earlier now).countP P : Nat) : Int) ≤ limit := by
  unfold enter
  split
  · next admitted =>
    rw [List.countP_append, List.countP_singleton]
    split
    · next inside =>
      have fewer : ((recent window now earlier).length : Int) < limit := by
        simpa [admits] using admitted
      have counted : earlier.countP P ≤ (recent window now earlier).length := by
        rw [recent, ← List.countP_eq_length_filter]
        exact List.countP_mono_left fun time _ => near now time inside
      omega
    · exact before
  · exact before

theorem countP_admitted_le {P : α → Bool} (near : ∀ now time, P now → P time → window.within now time)
    (room : 0 ≤ limit) (calls : List α) :
    (((admitted limit window calls).countP P : Nat) : Int) ≤ limit := by
  induction calls using List.reverseRecOn with
  | nil => exact room
  | append_singleton calls now ih =>
    rw [admitted_snoc]
    exact countP_enter_le near ih

end SlidingWindow
