import AeronPy.Lib.KeepAlive
import AeronPy.Lib.StepMachine
import Mathlib.Logic.Relation

/-!
# Who keeps whom alive

The methods that return a proxy are bound with `py::keep_alive<0, 1>()`: what they return (`0`)
keeps the object that they were called on (`1`) alive, until it is finalised itself. So a
subscription keeps its context, and one that replays a recording keeps the recording, which
keeps the archive. Where a method returns `None` there is nothing to keep anything alive.

* `Factory`: these methods, and the classes they go from and to;
* `State`, `Action`, `step`: a program that makes, copies and drops references;
* `clients_outlive_proxies`, `finalised_in_order`: what is alive, and in which order objects are
  finalised, after every run.
-/

namespace AeronPy

namespace Lifetime

open KeepAlive

/-! ## Methods that return proxies -/

/-- The classes that the modules bind, but for images and headers. -/
inductive ObjectClass where
  | context | archive | recording
  | subscription | publication | exclusivePublication
deriving DecidableEq, Repr

/-- The methods that are bound with `py::keep_alive<0, 1>()`. -/
inductive Factory where
  | addSubscription | addPublication | addExclusivePublication
  | find | findLast | addRecordedPublication | addRecordedExclusivePublication
  | replay
deriving DecidableEq, Repr

namespace Factory

/-- The class that binds the method. -/
def self : Factory → ObjectClass
  | addSubscription | addPublication | addExclusivePublication => .context
  | find | findLast | addRecordedPublication | addRecordedExclusivePublication => .archive
  | replay => .recording

/-- The class of what the method returns. -/
def result : Factory → ObjectClass
  | addSubscription | replay => .subscription
  | addPublication | addRecordedPublication => .publication
  | addExclusivePublication | addRecordedExclusivePublication => .exclusivePublication
  | find | findLast => .recording

/-- The methods that return a null `unique_ptr` where nothing is found. -/
def returnsNone : Factory → Bool
  | find | findLast => true
  | _ => false

end Factory

/-! ## Programs -/

structure State where
  heap : Heap
  classOf : ℕ → ObjectClass
  /-- The references that the program has to each object. -/
  held : ℕ → ℕ

def init : State := ⟨empty, fun _ => .context, fun _ => 0⟩

/-- What a program does with its references. -/
inductive Action where
  /-- `Context(...)`. -/
  | context
  /-- `Archive(...)`. -/
  | archive
  /-- A method of object `o`, with a result that is not `None` or with `None`. -/
  | call (o : ℕ) (method : Factory) (found : Bool)
  | copy (o : ℕ)
  | drop (o : ℕ)
deriving DecidableEq, Repr

/-- A new object, which the program has a reference to. -/
def State.make (s : State) (classOf : ObjectClass) (patient : Option ℕ) : State where
  heap := s.heap.alloc patient
  classOf := Function.update s.classOf s.heap.next classOf
  held := Function.update s.held s.heap.next 1

def step (s : State) : Action → Option State
  | .context => some (s.make .context none)
  | .archive => some (s.make .archive none)
  | .call o method found =>
    if 0 < s.held o ∧ s.classOf o = method.self then
      if found then some (s.make method.result (some o))
      else if method.returnsNone then some s
      else none
    else none
  | .copy o =>
    if 0 < s.held o then
      some { s with
        heap := s.heap.retain o
        held := Function.update s.held o (s.held o + 1) }
    else none
  | .drop o =>
    if 0 < s.held o then
      some { s with
        heap := s.heap.release o
        held := Function.update s.held o (s.held o - 1) }
    else none

/-! ## The invariant -/

/-- The counts are right, and every proxy has the object that it came from as its patient. -/
structure Inv (s : State) : Prop where
  counted : Counted s.heap s.held none
  proxies : ∀ n p, s.heap.patient n = some p →
    ∃ method : Factory, s.classOf p = method.self ∧ s.classOf n = method.result
  clients : ∀ n, n < s.heap.next → s.heap.patient n = none →
    s.classOf n = .context ∨ s.classOf n = .archive

theorem inv_init : Inv init where
  counted := counted_empty
  proxies _ _ hp := by cases hp
  clients _ hn := absurd hn (Nat.not_lt_zero _)

/-- A new object comes from one that the program has, or is a client. -/
theorem inv_make {s : State} (hinv : Inv s) {classOf : ObjectClass} {patient : Option ℕ}
    (hpatient : ∀ p, patient = some p → 0 < s.held p ∧
      ∃ method : Factory, s.classOf p = method.self ∧ classOf = method.result)
    (hclient : patient = none → classOf = .context ∨ classOf = .archive) :
    Inv (s.make classOf patient) := by
  have halive : ∀ p, patient = some p → s.heap.Alive p := by
    intro p hp
    exact alive_of_held hinv.counted (hpatient p hp).1
  have hlt : ∀ p, s.heap.Alive p → p ≠ s.heap.next := by
    intro p hp
    exact (hinv.counted.lt_next p hp).ne
  refine ⟨counted_alloc hinv.counted halive, ?_, ?_⟩
  · intro n p hp
    simp only [State.make, Heap.alloc] at hp ⊢
    by_cases hn : n = s.heap.next
    · subst hn
      rw [Function.update_self] at hp
      obtain ⟨-, method, hself, hresult⟩ := hpatient p hp
      refine ⟨method, ?_, ?_⟩
      · rw [Function.update_of_ne (hlt p (halive p hp))]
        exact hself
      · rw [Function.update_self]
        exact hresult
    · rw [Function.update_of_ne hn] at hp
      obtain ⟨method, hself, hresult⟩ := hinv.proxies n p hp
      obtain ⟨hpn, hnext⟩ := hinv.counted.patient_lt n p hp
      refine ⟨method, ?_, ?_⟩
      · rw [Function.update_of_ne (hpn.trans hnext).ne]
        exact hself
      · rw [Function.update_of_ne hn]
        exact hresult
  · intro n hn hp
    simp only [State.make, Heap.alloc] at hn hp ⊢
    by_cases hnext : n = s.heap.next
    · subst hnext
      rw [Function.update_self] at hp ⊢
      exact hclient hp
    · rw [Function.update_of_ne hnext] at hp ⊢
      exact hinv.clients n (by omega) hp

theorem inv_step {s s' : State} {a : Action} (hinv : Inv s) (h : step s a = some s') :
    Inv s' := by
  cases a with
  | context =>
    cases h
    exact inv_make hinv nofun fun _ => Or.inl rfl
  | archive =>
    cases h
    exact inv_make hinv nofun fun _ => Or.inr rfl
  | call o method found =>
    obtain ⟨⟨hheld, hclass⟩, h⟩ := Option.ite_none_right_eq_some.mp h
    cases found with
    | true =>
      cases h
      have hpatient : ∀ p, some o = some p → 0 < s.held p ∧
          ∃ m : Factory, s.classOf p = m.self ∧ method.result = m.result := by
        intro p hp
        cases hp
        exact ⟨hheld, method, hclass, rfl⟩
      exact inv_make hinv hpatient nofun
    | false =>
      obtain ⟨-, h⟩ := Option.ite_none_right_eq_some.mp h
      cases h
      exact hinv
  | copy o =>
    obtain ⟨hheld, h⟩ := Option.ite_none_right_eq_some.mp h
    cases h
    have halive := alive_of_held hinv.counted hheld
    exact ⟨counted_retain hinv.counted halive, hinv.proxies, hinv.clients⟩
  | drop o =>
    obtain ⟨hheld, h⟩ := Option.ite_none_right_eq_some.mp h
    cases h
    obtain ⟨hcounted, hnext, hpatient⟩ := counted_release hinv.counted hheld
    refine ⟨hcounted, ?_, ?_⟩
    · rw [hpatient]
      exact hinv.proxies
    · rw [hpatient, hnext]
      exact hinv.clients

theorem inv_run {s : State} {as : List Action} (h : StepMachine.run step init as = some s) :
    Inv s :=
  StepMachine.run_invariant (fun _ _ _ hu ha => inv_step hu ha) h inv_init

/-! ## Clients -/

/-- The object came from the other one, directly or by way of others. -/
def CameFrom (s : State) : ℕ → ℕ → Prop :=
  Relation.ReflTransGen fun n p => s.heap.patient n = some p

/-- What an object that is alive came from is alive, up to a context or an archive. -/
theorem client_of_alive {s : State} (hinv : Inv s) {o : ℕ} (ho : s.heap.Alive o) :
    ∃ client, CameFrom s o client ∧ s.heap.Alive client ∧
      (s.classOf client = .context ∨ s.classOf client = .archive) := by
  -- along the patients, which are older and older
  induction o using Nat.strong_induction_on with
  | _ o ih =>
    cases hp : s.heap.patient o with
    | none =>
      have hlt := hinv.counted.lt_next o ho
      exact ⟨o, .refl, ho, hinv.clients o hlt hp⟩
    | some p =>
      have hlt := (hinv.counted.patient_lt o p hp).1
      have halive := alive_patient hinv.counted hp ho
      obtain ⟨client, hfrom, hclient⟩ := ih p hlt halive
      exact ⟨client, .head hp hfrom, hclient⟩

/-- **Clients outlive proxies.** After every run, an object is alive exactly if the program has
a reference to it, or to something that came from it; and everything that is alive came from a
context or an archive that is alive too. -/
theorem clients_outlive_proxies {s : State} {as : List Action}
    (h : StepMachine.run step init as = some s) (o : ℕ) :
    (s.heap.Alive o ↔ ∃ n, 0 < s.held n ∧ CameFrom s n o) ∧
      (s.heap.Alive o → ∃ client, CameFrom s o client ∧ s.heap.Alive client ∧
        (s.classOf client = .context ∨ s.classOf client = .archive)) := by
  have hinv := inv_run h
  refine ⟨?_, client_of_alive hinv⟩
  rw [alive_iff hinv.counted]
  constructor
  · intro hreachable
    induction hreachable with
    | held hheld => exact ⟨_, hheld, .refl⟩
    | patient _ hp ih =>
      obtain ⟨n, hheld, hfrom⟩ := ih
      exact ⟨n, hheld, .tail hfrom hp⟩
  · rintro ⟨n, hheld, hfrom⟩
    induction hfrom with
    | refl => exact .held hheld
    | tail _ hp ih => exact .patient ih hp

/-- A recording is replayed, and only the subscription is kept. -/
def replayed : List Action :=
  [.archive, .call 0 .findLast true, .call 1 .replay true, .drop 1, .drop 0]

theorem clients_outlive_proxies_replayed :
    ∃ s, StepMachine.run step init replayed = some s ∧
      (s.heap.Alive 0 ↔ ∃ n, 0 < s.held n ∧ CameFrom s n 0) ∧ s.heap.Alive 0 := by
  have hrun : StepMachine.run step init replayed = some _ := rfl
  exact ⟨_, hrun, (clients_outlive_proxies hrun 0).1, by decide⟩

/-! ## Finalisation -/

/-- **Finalisation.** After every run, each object has been finalised at most once, none that the
program has a reference to has been, what an object came from is finalised after it, and once
the program has no references left everything is finalised. -/
theorem finalised_in_order {s : State} {as : List Action}
    (h : StepMachine.run step init as = some s) :
    s.heap.finalised.Nodup ∧ (∀ o, 0 < s.held o → o ∉ s.heap.finalised) ∧
      (∀ n p, s.heap.patient n = some p → p ∈ s.heap.finalised →
        [n, p].Sublist s.heap.finalised) ∧
      ((∀ o, s.held o = 0) → ∀ o, o < s.heap.next → o ∈ s.heap.finalised) := by
  have hc := (inv_run h).counted
  refine ⟨hc.nodup, ?_, hc.ordered, ?_⟩
  · intro o hheld hmem
    exact ((hc.mem_finalised o).mp hmem).2 (alive_of_held hc hheld)
  · intro hnone o hlt
    have hheld : s.held = fun _ => 0 := funext hnone
    rw [hheld] at hc
    exact (hc.mem_finalised o).mpr ⟨hlt, not_alive_of_held_eq_zero hc o⟩

theorem finalised_in_order_replayed :
    ∃ s, StepMachine.run step init (replayed ++ [.drop 2]) = some s ∧
      s.heap.finalised.Nodup ∧ s.heap.finalised = [2, 1, 0] := by
  have hrun : StepMachine.run step init (replayed ++ [.drop 2]) = some _ := rfl
  exact ⟨_, hrun, (finalised_in_order hrun).1, rfl⟩

end Lifetime

end AeronPy
