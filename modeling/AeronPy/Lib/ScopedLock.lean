import Mathlib.Logic.Function.Basic
import Mathlib.Tactic.Common

/-!
# A lock that is taken and given up in scopes

Threads of type `T` share one lock. The code that a thread has left is a list of instructions
of type `I`, and `use` tells what an instruction does with the lock. Nothing checks, when an
instruction runs, whether the thread has the lock: that is read off the code.

* `Holds`: the code is that of a thread that has the lock;
* `Scoped`: the code takes the lock where it does not have it, and has it or not where an
  instruction asks for that;
* `Inv`: all code is scoped, and the owner is the one thread whose code holds the lock. Taking
  the lock while it is free, releasing it and replacing code keep it.
-/

namespace ScopedLock

/-- What an instruction does with the lock. -/
inductive Use where
  | acquire | release
  /-- The instruction may only run with the lock. -/
  | needs
  /-- The instruction may only run without the lock. -/
  | lacks
  | free
deriving DecidableEq, Repr

variable {T I : Type*} {use : I → Use}

/-- The next instruction that has to do with the lock tells whether the thread has it. -/
def Holds (use : I → Use) : List I → Bool
  | [] => false
  | i :: rest =>
    match use i with
    | .acquire | .lacks => false
    | .release | .needs => true
    | .free => Holds use rest

/-- Each instruction leaves the lock as the rest of the code expects it. -/
def Scoped (use : I → Use) : List I → Prop
  | [] => True
  | i :: rest => Scoped use rest ∧
    match use i with
    | .acquire | .needs => Holds use rest = true
    | .release | .lacks => Holds use rest = false
    | .free => True

section Code

variable {i : I} {rest : List I}

theorem holds_release (h : use i = .release) : Holds use (i :: rest) = true := by
  simp only [Holds, h]

theorem holds_needs (h : use i = .needs) : Holds use (i :: rest) = true := by
  simp only [Holds, h]

end Code

/-! ## Owners -/

/-- The owner is the thread whose code holds the lock. -/
structure Inv (use : I → Use) (owner : Option T) (code : T → List I) : Prop where
  isScoped : ∀ t, Scoped use (code t)
  owner_iff : ∀ t, owner = some t ↔ Holds use (code t) = true

namespace Inv

variable {owner : Option T} {code : T → List I} {t u : T} {i : I} {rest : List I}

/-- At most one thread's code holds the lock. -/
theorem exclusive (h : Inv use owner code) (ht : Holds use (code t) = true)
    (hu : Holds use (code u) = true) : t = u := by
  have howner := ((h.owner_iff t).mpr ht).symm.trans ((h.owner_iff u).mpr hu)
  exact Option.some.inj howner

theorem owner_of_needs (h : Inv use owner code) (hcode : code t = i :: rest)
    (hi : use i = .needs) : owner = some t := by
  apply (h.owner_iff t).mpr
  rw [hcode]
  exact holds_needs hi

theorem owner_of_release (h : Inv use owner code) (hcode : code t = i :: rest)
    (hi : use i = .release) : owner = some t := by
  apply (h.owner_iff t).mpr
  rw [hcode]
  exact holds_release hi

/-- A thread without the lock in its code does not have it. -/
theorem owner_ne (h : Inv use owner code) (ht : Holds use (code t) = false) :
    owner ≠ some t := by
  intro howner
  have hholds := (h.owner_iff t).mp howner
  rw [ht] at hholds
  cases hholds

variable [DecidableEq T] {new : List I}

/-- The code of one thread changes, and with it perhaps the owner. -/
theorem update {owner' : Option T} (h : Inv use owner code) (hscoped : Scoped use new)
    (howner : owner' = some t ↔ Holds use new = true)
    (hothers : ∀ u, u ≠ t → (owner' = some u ↔ owner = some u)) :
    Inv use owner' (Function.update code t new) := by
  constructor
  · intro u
    by_cases hu : u = t
    · rw [hu, Function.update_self]
      exact hscoped
    · rw [Function.update_of_ne hu]
      exact h.isScoped u
  · intro u
    by_cases hu : u = t
    · rw [hu, Function.update_self]
      exact howner
    · rw [Function.update_of_ne hu]
      exact (hothers u hu).trans (h.owner_iff u)

/-- New code that stands to the lock as the old one does. -/
theorem replace (h : Inv use owner code) (hscoped : Scoped use new)
    (hholds : Holds use new = Holds use (code t)) :
    Inv use owner (Function.update code t new) := by
  apply h.update hscoped
  · rw [hholds]
    exact h.owner_iff t
  · intro u _
    exact Iff.rfl

/-- A thread takes the lock while nobody has it. -/
theorem acquire (h : Inv use (none : Option T) code) (hscoped : Scoped use new)
    (hholds : Holds use new = true) : Inv use (some t) (Function.update code t new) := by
  apply h.update hscoped
  · exact iff_of_true rfl hholds
  · intro u hu
    apply iff_of_false _ nofun
    intro htu
    exact hu (Option.some.inj htu).symm

/-- The thread that has the lock gives it up. -/
theorem release (h : Inv use owner code) (howner : owner = some t) (hscoped : Scoped use new)
    (hholds : Holds use new = false) : Inv use none (Function.update code t new) := by
  apply h.update hscoped
  · rw [hholds]
    exact iff_of_false nofun nofun
  · intro u hu
    apply iff_of_false nofun
    rw [howner]
    intro htu
    exact hu (Option.some.inj htu).symm

end Inv

end ScopedLock
