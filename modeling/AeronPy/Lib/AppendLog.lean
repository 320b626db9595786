import AeronPy.Lib.StepMachine
import Mathlib.Order.Defs.PartialOrder

/-!
# Logs with increasing keys

A log grows at its end only, and each new entry has a greater key than the ones before it.

* `append`: the step; `eq_append_of_run` and `increasing_of_run` for the runs of it;
* `latest`: the last entry that meets a condition. Where the keys increase it is the one with
  the greatest key, `le_latest`, and the entries to come only raise it, `latest_mono`;
* `foldl_overwrite`: a variable that every entry overwrites holds the last one in the end.
-/

namespace AppendLog

variable {α κ : Type*} [Preorder κ] {key : α → κ}

/-- The keys increase along the log. -/
def Increasing (key : α → κ) (log : List α) : Prop :=
  log.Pairwise fun a b => key a < key b

/-! ## Appending -/

section

variable [DecidableLT κ]

/-- Append an entry, if its key is greater than all the keys of the log. -/
def append (key : α → κ) (log : List α) (a : α) : Option (List α) :=
  if ∀ b ∈ log, key b < key a then some (log ++ [a]) else none

theorem append_eq_some {log log' : List α} {a : α} :
    append key log a = some log' ↔ (∀ b ∈ log, key b < key a) ∧ log ++ [a] = log' := by
  rw [append, Option.ite_none_right_eq_some, Option.some_inj]

/-- A new entry keeps the keys increasing. -/
theorem increasing_append {log log' : List α} {a : α} (hlog : Increasing key log)
    (h : append key log a = some log') : Increasing key log' := by
  obtain ⟨hgreater, rfl⟩ := append_eq_some.mp h
  refine List.pairwise_append.mpr ⟨hlog, List.pairwise_singleton _ a, ?_⟩
  intro b hb c hc
  rw [List.mem_singleton.mp hc]
  exact hgreater b hb

theorem increasing_of_run {log log' : List α} {entries : List α}
    (h : StepMachine.run (append key) log entries = some log') (hlog : Increasing key log) :
    Increasing key log' :=
  StepMachine.run_invariant (fun _ _ _ hs ha => increasing_append hs ha) h hlog

/-- A run appends its entries and touches nothing else. -/
theorem eq_append_of_run {log log' : List α} {entries : List α}
    (h : StepMachine.run (append key) log entries = some log') : log' = log ++ entries := by
  induction entries generalizing log with
  | nil =>
    cases h
    rw [List.append_nil]
  | cons a entries ih =>
    obtain ⟨log₁, ha, hrest⟩ := StepMachine.run_cons_eq_some.mp h
    obtain ⟨-, rfl⟩ := append_eq_some.mp ha
    rw [ih hrest, List.append_assoc, List.singleton_append]

end

/-! ## The latest entry -/

/-- The last entry that meets `p`. -/
def latest (p : α → Bool) (log : List α) : Option α := (log.filter p).getLast?

variable {p : α → Bool} {log : List α} {a : α}

theorem latest_eq_none_iff : latest p log = none ↔ ∀ a ∈ log, ¬p a = true := by
  rw [latest, List.getLast?_eq_none_iff, List.filter_eq_nil_iff]

theorem mem_of_latest (h : latest p log = some a) : a ∈ log ∧ p a = true :=
  List.mem_filter.mp (List.mem_of_getLast? h)

theorem latest_append_of_pos (h : p a = true) (log : List α) :
    latest p (log ++ [a]) = some a := by
  rw [latest, List.filter_append, List.filter_cons_of_pos h, List.filter_nil,
    List.getLast?_append, List.getLast?_singleton, Option.some_or]

/-- Of the entries that meet `p`, the last one has the greatest key. -/
theorem le_latest (hlog : Increasing key log) (h : latest p log = some a) {b : α}
    (hb : b ∈ log) (hp : p b = true) : key b ≤ key a := by
  obtain ⟨earlier, hfilter⟩ := List.getLast?_eq_some_iff.mp h
  have hmem : b ∈ earlier ++ [a] := hfilter ▸ List.mem_filter.mpr ⟨hb, hp⟩
  -- the entries that meet `p` are increasing too
  have hincreasing : (earlier ++ [a]).Pairwise fun a b => key a < key b :=
    hfilter ▸ hlog.filter p
  rcases List.mem_append.mp hmem with hearlier | hlast
  · exact le_of_lt ((List.pairwise_append.mp hincreasing).2.2 b hearlier a List.mem_cons_self)
  · rw [List.mem_singleton.mp hlast]

/-- In a log that has grown, the latest entry has at least the same key. -/
theorem latest_mono {log' : List α} (hlog' : Increasing key log') (hgrown : log <+: log')
    (h : latest p log = some a) : ∃ b, latest p log' = some b ∧ key a ≤ key b := by
  obtain ⟨hmem, hp⟩ := mem_of_latest h
  have hmem' : a ∈ log' := hgrown.subset hmem
  cases hlatest : latest p log' with
  | none => exact absurd hp (latest_eq_none_iff.mp hlatest a hmem')
  | some b => exact ⟨b, rfl, le_latest hlog' hlatest hmem' hp⟩

/-! ## Overwriting -/

/-- A variable that is overwritten with each entry holds what the last one left in it. -/
theorem foldl_overwrite {β : Type*} (f : α → β) (init : β) (log : List α) :
    log.foldl (fun _ a => f a) init = (log.getLast?.map f).getD init := by
  induction log generalizing init with
  | nil => rfl
  | cons a log ih =>
    rw [List.foldl_cons, ih, List.getLast?_cons, Option.map_some, Option.getD_some]
    cases log.getLast? with
    | none => rfl
    | some b => rfl

end AppendLog
