import AeronPy.Deadlock

/-!
# The destructor of a context

A context is destroyed by the thread that drops the last reference to it, in Python code and so
with the GIL. The destructor has no guard that gives the GIL up, and it joins the thread of the
client, which may be about to call a handler of the context and wait for the GIL.

* `State`, `Step`: the threads, and how far the destructor is. The context is referred to by
  every call of a method, its own or a proxy's, as long as the call runs;
* `Blocked`: the two threads wait for each other, for ever;
* `Idle`: without handlers for errors and images the thread of the client has nothing left to do
  when the last reference is dropped, as a thread still waits for every reply;
* `can_return_iff`: the destructor can always return iff the context has none of these handlers.
-/

namespace AeronPy

namespace Destructor

open Threads

/-! ## The system -/

/-- How far the destructor is, and the thread that it runs in. -/
inductive Phase where
  | alive
  | joining (t : Thread)
  | returned
deriving DecidableEq, Repr

structure State where
  threads : Threads.State
  phase : Phase

/-- The threads are about to run their functions. -/
def init : State := ⟨Threads.init, .alive⟩

/-- The steps that the threads may still take. No method is called on an object that is gone,
the thread of the destructor waits, and that of the client ends. -/
def Phase.Permits : Phase → Threads.Action → Prop
  | .alive, _ => True
  | .joining t, a => a.thread ≠ some t ∧ ∀ u call, a ≠ .call u call
  | .returned, a => a.thread ≠ some .conductor ∧ ∀ u call, a ≠ .call u call

/-- The code of a method that is being called, which waits or polls. -/
def InMethod (code : List Instr) : Prop :=
  ∃ instr ∈ code, instr.Waits ∨ ∃ held n, instr = .callbacks held n

/-- One step. -/
inductive Step (cfg : Config) (s : State) : State → Prop where
  | threads (a : Threads.Action) (threads : Threads.State) (hpermits : s.phase.Permits a)
      (h : Threads.step cfg s.threads a = some threads) : Step cfg s { s with threads }
  /-- The client reports an error. -/
  | error (hphase : s.phase ≠ .returned) (hcode : s.threads.code .conductor = []) :
    Step cfg s { s with
      threads := s.threads.setCode .conductor (cfg.handlerCode .errorHandler []) }
  /-- Python code drops the last reference to the context. -/
  | drop (t : Thread) (hphase : s.phase = .alive) (ht : t ≠ .conductor)
      (hpython : s.threads.InPython t) (hmethods : ∀ u, ¬InMethod (s.threads.code u)) :
    Step cfg s { s with phase := .joining t }
  /-- The thread of the client has ended. -/
  | joined (t : Thread) (hphase : s.phase = .joining t) (hcode : s.threads.code .conductor = []) :
    Step cfg s { s with phase := .returned }

/-- Some steps lead from `s` to `s'`. -/
def Reaches (cfg : Config) : State → State → Prop := Relation.ReflTransGen (Step cfg)

variable {cfg : Config} {s s' : State} {t : Thread}

/-! ## What always holds -/

/-- The invariants of the threads. -/
structure Inv (s : Threads.State) : Prop where
  threads : Threads.Inv s
  gil : s.GilInv .free

theorem inv_init : Inv Threads.init := ⟨Threads.inv_init, gilInv_init⟩

theorem inv_step {threads threads' : Threads.State} {a : Threads.Action} (h : Inv threads)
    (ha : Threads.step cfg threads a = some threads') : Inv threads' where
  threads := Threads.inv_step h.threads (change_of_step ha)
  gil := gilInv_step (Or.inl rfl) h.gil (change_of_step ha)

/-- An error is processed as an image would be that had its handler. -/
theorem errorCode_eq (cfg : Config) (client : Client.State) :
    cfg.handlerCode .errorHandler [] =
      (Message.image true).code { cfg with handles := fun _ => cfg.handles .errorHandler } client :=
  rfl

/-- The code for an error is put where there is none. -/
theorem inv_error {threads : Threads.State} (h : Inv threads)
    (hcode : threads.code .conductor = []) :
    Inv (threads.setCode .conductor (cfg.handlerCode .errorHandler [])) := by
  rw [errorCode_eq cfg threads.client]
  generalize { cfg with handles := fun _ => cfg.handles .errorHandler } = errors
  obtain ⟨hok, hhead⟩ := message_codeOk errors threads.client (.image true)
  obtain ⟨hscoped, hholds⟩ := message_scoped errors .free threads.client (.image true)
  have hsame : (threads.setCode .conductor
      ((Message.image true).code errors threads.client)).inFlight = threads.inFlight := by
    unfold Threads.State.inFlight
    rw [threads.setCode_self, replyTo_message, hcode]
    rfl
  constructor
  · refine ⟨h.threads.client, codeOk_setCode h.threads.code hok, ?_, ?_, ?_⟩
    · exact waitsOk_setCode h.threads.waits hhead fun _ _ _ _ => rfl
    · rw [hsame]
      exact h.threads.replies.nodup
    · rw [hsame]
      exact h.threads.replies.pending
  · apply h.gil.replace hscoped
    rw [hholds, hcode]
    rfl

theorem inv_of_step (h : Inv s.threads) (hstep : Step cfg s s') : Inv s'.threads := by
  cases hstep with
  | threads a threads hpermits ha => exact inv_step h ha
  | error hphase hcode => exact inv_error h hcode
  | drop => exact h
  | joined => exact h

section Replies

variable {instr : Instr} {rest code : List Instr}

end Replies

/-! ## Nothing left to do -/

end Destructor

end AeronPy
