import AeronPy.Client
import AeronPy.Context
import AeronPy.Lib.ScopedLock

/-!
# Threads and the GIL

The program's threads run Python code with the GIL, and call the methods of the modules from
it. A method that is bound with `py::call_guard<py::gil_scoped_release>()` gives the GIL up
while its body runs, and every lambda that calls a Python function back takes it with
`py::gil_scoped_acquire`: those of `poll` and `poll_eos` on the thread that polls, those of the
context on the thread of the client, which processes the messages of the driver.

* `callGuard`: which methods are bound with the guard;
* `Instr`, `Call.code`: what a thread has left to do in the C++ code, as instructions;
* `State`, `Action`, `step`: the threads, the owner of the GIL, and the client of `Client`.

No step checks that the thread that runs Python code has the GIL: only `acquire` looks at the
owner. `python_exclusive` says that it always has, and that no other thread then runs any.
The handlers of the context do not add anything themselves: on the thread of the client such
a call would wait for a reply that only this thread processes. What the program does with the
proxies it got, closing and dropping them, is not part of the machine either.
-/

namespace AeronPy

namespace Threads

/-! ## Methods -/

/-- The thread of the client, and those of the program. -/
inductive Thread where
  | conductor
  | program (i : ℕ)
deriving DecidableEq, Repr

/-- The methods that the modules bind with `def`; `attribute` is any of the properties,
`__bool__` and `__str__`. -/
inductive Method where
  | add (kind : Client.Kind)
  | poll | pollEos
  | offer | close | attribute
  | replay | truncate
  | find | findLast | addRecordedPublication | addRecordedExclusivePublication
deriving DecidableEq, Repr

/-- The methods that are bound with `py::call_guard<py::gil_scoped_release>()`. -/
def callGuard : Method → Bool
  | .add _ | .poll | .pollEos => true
  | .offer | .close | .attribute => false
  | .replay => true
  | .truncate => false
  | .find | .findLast | .addRecordedPublication | .addRecordedExclusivePublication => true

/-- A call of a method, with what the course of its body depends on: the arguments of an
`add`, and how often a poll calls its handler. -/
inductive Call where
  | add (kind : Client.Kind) (channel : String) (streamId : Int32)
  | poll (fragments : ℕ)
  | pollEos (images : ℕ)
  /-- A method that calls nothing back and waits for no other thread. -/
  | other (method : Method)
deriving DecidableEq, Repr

def Call.method : Call → Method
  | .add kind _ _ => .add kind
  | .poll _ => .poll
  | .pollEos _ => .pollEos
  | .other method => method

/-! ## Code -/

/-- What a thread does next. -/
inductive Instr where
  /-- The constructor of `gil_scoped_acquire`, the destructor of `gil_scoped_release`. -/
  | acquire
  /-- The constructor of `gil_scoped_release`, the destructor of `gil_scoped_acquire`. -/
  | release
  /-- Python code, up to its return. -/
  | python
  /-- The `add` of one of the three methods that wait. -/
  | add (kind : Client.Kind) (channel : String) (streamId : Int32)
  /-- `while (!resource)`, for call `c` of the client. -/
  | wait (c : ℕ)
  /-- `n` more calls of a poll's handler; `held` where the poll has not given the GIL up. -/
  | callbacks (held : Bool) (n : ℕ)
  /-- C++ code that does not concern other threads. -/
  | native
  /-- The client takes note of the driver's reply. -/
  | reply (id : ℕ) (accepted : Bool)
deriving DecidableEq, Repr

/-- A Python function is called under `gil_scoped_acquire`, which does nothing on a thread
that has the GIL. -/
def callback (held : Bool) (rest : List Instr) : List Instr :=
  if held then .python :: rest else .acquire :: .python :: .release :: rest

/-- The body of a method. -/
def Call.body (held : Bool) : Call → Instr
  | .add kind channel streamId => .add kind channel streamId
  | .poll n | .pollEos n => .callbacks held n
  | .other _ => .native

/-- The body, under the guard if the method has it, and what follows the call. -/
def Call.code (guard : Method → Bool) (call : Call) (rest : List Instr) : List Instr :=
  if guard call.method then .release :: call.body false :: .acquire :: rest
  else call.body true :: rest

/-! ## Messages of the driver -/

/-- The handler for a new resource. -/
def newHandler : Client.Kind → ContextSetting
  | .subscription => .newSubscriptionHandler
  | .publication => .newPublicationHandler
  | .exclusivePublication => .newExclusivePublicationHandler

/-- The handler for an image. -/
def imageHandler (available : Bool) : ContextSetting :=
  if available then .availableImageHandler else .unavailableImageHandler

/-- The reply to a registration, and the news of an image. -/
inductive Message where
  | reply (id : ℕ) (accepted : Bool)
  | image (available : Bool)
deriving DecidableEq, Repr

/-- The guards of the methods, and the handlers that the context was made with. -/
structure Config where
  guard : Method → Bool
  handles : ContextSetting → Bool

/-- Calling a handler of the context, if there is one, before what follows. -/
def Config.handlerCode (cfg : Config) (setting : ContextSetting) (rest : List Instr) :
    List Instr :=
  if cfg.handles setting then callback false rest else rest

/-- How the client processes a message. The lookups of the program see the reply to a
registration only when the handler has returned. -/
def Message.code (cfg : Config) (client : Client.State) : Message → List Instr
  | .reply id accepted =>
    match client.registrations id with
    | some registration =>
      if accepted then cfg.handlerCode (newHandler registration.kind) [.reply id accepted]
      else [.reply id accepted]
    | none => [.reply id accepted]
  | .image available => cfg.handlerCode (imageHandler available) []

/-- The registration that the reply is to. -/
def Instr.replyTo : Instr → Option ℕ
  | .reply id _ => some id
  | _ => none

/-- The registration that the reply is to. -/
def Message.replyTo : Message → Option ℕ
  | .reply id _ => some id
  | .image _ => none

/-! ## The system -/

structure State where
  client : Client.State
  /-- The thread that has the GIL. -/
  owner : Option Thread
  code : Thread → List Instr
  /-- The messages of the driver that the client has not processed. -/
  inbox : List Message

/-- The threads of the program are about to run their functions. -/
def init : State where
  client := Client.init
  owner := none
  code
    | .conductor => []
    | .program _ => [.acquire, .python, .release]
  inbox := []

inductive Action where
  /-- Python code calls a method. -/
  | call (t : Thread) (call : Call)
  /-- Python code returns. -/
  | ret (t : Thread)
  /-- The handler of a poll raises, which ends the poll. -/
  | raises (t : Thread)
  /-- The interpreter gives the GIL up, to take it again. -/
  | switch (t : Thread)
  /-- The next instruction of C++ code; a publication may get the id of an identical one. -/
  | exec (t : Thread) (existing : Option ℕ)
  /-- The driver sends a message. -/
  | send (message : Message)
  /-- The client takes the next message. -/
  | process

namespace State

def setCode (s : State) (t : Thread) (code : List Instr) : State :=
  { s with code := Function.update s.code t code }

theorem setCode_self (s : State) (t : Thread) (code : List Instr) :
    (s.setCode t code).code t = code := Function.update_self ..

theorem setCode_of_ne (s : State) {t u : Thread} (h : u ≠ t) (code : List Instr) :
    (s.setCode t code).code u = s.code u := Function.update_of_ne h ..

/-- The registrations whose reply is being processed, or on its way to the client. -/
def inFlight (s : State) : List ℕ :=
  (s.code .conductor).filterMap Instr.replyTo ++ s.inbox.filterMap Message.replyTo

/-- The driver replies once, to a registration that waits for it. -/
def CanSend (s : State) : Message → Prop
  | .reply id _ => id ∉ s.inFlight ∧
      (s.client.registrations id).map Client.Registration.status = some .pending
  | .image _ => True

instance (s : State) : DecidablePred s.CanSend
  | .reply _ _ => inferInstanceAs (Decidable (_ ∧ _))
  | .image _ => inferInstanceAs (Decidable True)

end State

/-- The next instruction of C++ code. -/
def exec (s : State) (t : Thread) (existing : Option ℕ) : List Instr → Option State
  | .acquire :: rest =>
    if s.owner = none then some { s.setCode t rest with owner := some t } else none
  | .release :: rest => some { s.setCode t rest with owner := none }
  | .add kind channel streamId :: rest => do
    let c := s.client.calls.length
    let called ← Client.step s.client (.call kind channel streamId)
    let client ← Client.step called (.register c existing)
    return { s.setCode t (.wait c :: rest) with client }
  | .wait c :: rest => do
    let client ← Client.step s.client (.lookup c)
    let call ← client.calls[c]?
    match call.phase with
    | .waiting _ => return { s with client }
    | _ => return { s.setCode t rest with client }
  | .callbacks _ 0 :: rest => some (s.setCode t rest)
  | .callbacks held (n + 1) :: rest =>
    some (s.setCode t (callback held (.callbacks held n :: rest)))
  | .native :: rest => some (s.setCode t rest)
  | .reply id accepted :: rest => do
    let client ← Client.step s.client (.reply id accepted)
    return { s.setCode t rest with client }
  | .python :: _ => none
  | [] => none

/-- One step. -/
def step (cfg : Config) (s : State) : Action → Option State
  | .call t call =>
    match s.code t with
    | .python :: rest =>
      match t, call with
      -- the handlers of the context do not add resources to it
      | .conductor, .add .. => none
      | _, _ => some (s.setCode t (call.code cfg.guard (.python :: rest)))
    | _ => none
  | .ret t =>
    match s.code t with
    | .python :: rest => some (s.setCode t rest)
    | _ => none
  | .raises t =>
    match s.code t with
    -- `gil_scoped_acquire` is destroyed on the way out
    | .python :: .release :: .callbacks false _ :: rest => some (s.setCode t (.release :: rest))
    | .python :: .callbacks true _ :: rest => some (s.setCode t rest)
    | _ => none
  | .switch t =>
    match s.code t with
    | .python :: rest => some { s.setCode t (.acquire :: .python :: rest) with owner := none }
    | _ => none
  | .exec t existing => exec s t existing (s.code t)
  | .send message =>
    if s.CanSend message then some { s with inbox := s.inbox ++ [message] } else none
  | .process =>
    match s.code .conductor, s.inbox with
    | [], message :: messages =>
      some { s.setCode .conductor (message.code cfg s.client) with inbox := messages }
    | _, _ => none

/-! ## What a step can do -/

/-- The steps of a thread that do not concern the client: the owner of the GIL and the code of
the thread, before and after. -/
inductive Runs (cfg : Config) (t : Thread) :
    Option Thread → List Instr → Option Thread → List Instr → Prop where
  | call {o rest} (call : Call)
      (h : t = .conductor → ∀ kind channel streamId, call ≠ .add kind channel streamId) :
      Runs cfg t o (.python :: rest) o (call.code cfg.guard (.python :: rest))
  | ret {o rest} : Runs cfg t o (.python :: rest) o rest
  | raises {o n rest} :
      Runs cfg t o (.python :: .release :: .callbacks false n :: rest) o (.release :: rest)
  | raisesHeld {o n rest} : Runs cfg t o (.python :: .callbacks true n :: rest) o rest
  | switch {o rest} : Runs cfg t o (.python :: rest) none (.acquire :: .python :: rest)
  | acquire {rest} : Runs cfg t none (.acquire :: rest) (some t) rest
  | release {o rest} : Runs cfg t o (.release :: rest) none rest
  | polled {o held rest} : Runs cfg t o (.callbacks held 0 :: rest) o rest
  | callback {o held n rest} : Runs cfg t o (.callbacks held (n + 1) :: rest) o
      (callback held (.callbacks held n :: rest))
  | native {o rest} : Runs cfg t o (.native :: rest) o rest

/-- What becomes of the state in a step. -/
inductive Change (cfg : Config) (s s' : State) : Prop where
  | runs (t : Thread) (owner : Option Thread) (code : List Instr)
      (hruns : Runs cfg t s.owner (s.code t) owner code)
      (h : s' = { s.setCode t code with owner })
  | add (t : Thread) (rest : List Instr) (kind : Client.Kind) (channel : String)
      (streamId : Int32) (existing : Option ℕ) (called client : Client.State)
      (hcode : s.code t = .add kind channel streamId :: rest)
      (hcall : Client.step s.client (.call kind channel streamId) = some called)
      (hregister : Client.step called (.register s.client.calls.length existing) = some client)
      (h : s' = { s.setCode t (.wait s.client.calls.length :: rest) with client })
  | wait (t : Thread) (rest : List Instr) (c : ℕ) (client : Client.State) (call : Client.Call)
      (hcode : s.code t = .wait c :: rest)
      (hlookup : Client.step s.client (.lookup c) = some client)
      (hcall : client.calls[c]? = some call) (hphase : ∃ id, call.phase = .waiting id)
      (h : s' = { s with client })
  | found (t : Thread) (rest : List Instr) (c : ℕ) (client : Client.State)
      (call : Client.Call) (hcode : s.code t = .wait c :: rest)
      (hlookup : Client.step s.client (.lookup c) = some client)
      (hcall : client.calls[c]? = some call) (hphase : ∀ id, call.phase ≠ .waiting id)
      (h : s' = { s.setCode t rest with client })
  | reply (t : Thread) (rest : List Instr) (id : ℕ) (accepted : Bool) (client : Client.State)
      (hcode : s.code t = .reply id accepted :: rest)
      (hreply : Client.step s.client (.reply id accepted) = some client)
      (h : s' = { s.setCode t rest with client })
  | send (message : Message) (hsend : s.CanSend message)
      (h : s' = { s with inbox := s.inbox ++ [message] })
  | process (message : Message) (messages : List Message) (hcode : s.code .conductor = [])
      (hinbox : s.inbox = message :: messages)
      (h : s' = { s.setCode .conductor (message.code cfg s.client) with inbox := messages })

theorem change_of_exec {cfg : Config} {s s' : State} {t : Thread} {existing : Option ℕ}
    (h : exec s t existing (s.code t) = some s') : Change cfg s s' := by
  cases hcode : s.code t with
  | nil =>
    rw [hcode] at h
    cases h
  | cons instr rest =>
    rw [hcode] at h
    have hruns : ∀ {owner code}, Runs cfg t s.owner (instr :: rest) owner code →
        { s.setCode t code with owner } = s' → Change cfg s s' := by
      intro owner code hr heq
      rw [← hcode] at hr
      exact .runs t owner code hr heq.symm
    cases instr with
    | acquire =>
      obtain ⟨howner, h⟩ := Option.ite_none_right_eq_some.mp h
      rw [howner] at hruns
      exact hruns .acquire (Option.some.inj h)
    | release => exact hruns .release (Option.some.inj h)
    | python => cases h
    | add kind channel streamId =>
      -- a call always starts
      obtain ⟨client, hregister, h⟩ := Option.bind_eq_some_iff.mp h
      exact .add t rest kind channel streamId existing _ client hcode rfl hregister
        (Option.some.inj h).symm
    | wait c =>
      obtain ⟨client, hlookup, h⟩ := Option.bind_eq_some_iff.mp h
      obtain ⟨call, hcall, h⟩ := Option.bind_eq_some_iff.mp h
      cases hphase : call.phase with
      | waiting id =>
        rw [hphase] at h
        exact .wait t rest c client call hcode hlookup hcall ⟨id, hphase⟩
          (Option.some.inj h).symm
      | _ =>
        rw [hphase] at h
        refine .found t rest c client call hcode hlookup hcall ?_ (Option.some.inj h).symm
        intro id hid
        rw [hphase] at hid
        cases hid
    | callbacks held n =>
      cases n with
      | zero => exact hruns .polled (Option.some.inj h)
      | succ n => exact hruns .callback (Option.some.inj h)
    | native => exact hruns .native (Option.some.inj h)
    | reply id accepted =>
      obtain ⟨client, hreply, h⟩ := Option.bind_eq_some_iff.mp h
      exact .reply t rest id accepted client hcode hreply (Option.some.inj h).symm

theorem change_of_step {cfg : Config} {s s' : State} {a : Action} (h : step cfg s a = some s') :
    Change cfg s s' := by
  have hruns : ∀ {t owner code}, Runs cfg t s.owner (s.code t) owner code →
      { s.setCode t code with owner } = s' → Change cfg s s' := by
    intro t owner code hr heq
    exact .runs t owner code hr heq.symm
  cases a with
  | call t call =>
    simp only [step] at h
    split at h
    · next rest hcode =>
      split at h
      · cases h
      · next hconductor =>
        refine hruns (t := t) ?_ (Option.some.inj h)
        rw [hcode]
        apply Runs.call
        intro ht kind channel streamId hadd
        exact hconductor kind channel streamId ht hadd
    · cases h
  | ret t =>
    simp only [step] at h
    split at h
    · next rest hcode =>
      refine hruns (t := t) ?_ (Option.some.inj h)
      rw [hcode]
      exact .ret
    · cases h
  | raises t =>
    simp only [step] at h
    split at h
    · next rest hcode =>
      refine hruns (t := t) ?_ (Option.some.inj h)
      rw [hcode]
      exact .raises
    · next rest hcode =>
      refine hruns (t := t) ?_ (Option.some.inj h)
      rw [hcode]
      exact .raisesHeld
    · cases h
  | switch t =>
    simp only [step] at h
    split at h
    · next rest hcode =>
      refine hruns (t := t) ?_ (Option.some.inj h)
      rw [hcode]
      exact .switch
    · cases h
  | exec t existing => exact change_of_exec h
  | send message =>
    obtain ⟨hsend, h⟩ := Option.ite_none_right_eq_some.mp h
    exact .send message hsend (Option.some.inj h).symm
  | process =>
    simp only [step] at h
    split at h
    · next message messages hcode hinbox =>
      exact .process message messages hcode hinbox (Option.some.inj h).symm
    · cases h

/-- The thread that takes the step. -/
def Action.thread : Action → Option Thread
  | .call t _ | .ret t | .raises t | .switch t | .exec t _ => some t
  | .send _ => none
  | .process => some .conductor

theorem code_exec {s s' : State} {t u : Thread} {existing : Option ℕ} {code : List Instr}
    (h : exec s t existing code = some s') (hu : u ≠ t) : s'.code u = s.code u := by
  have hset : ∀ code', (s.setCode t code').code u = s.code u := s.setCode_of_ne hu
  cases code with
  | nil => cases h
  | cons instr rest =>
    cases instr with
    | acquire =>
      obtain ⟨-, h⟩ := Option.ite_none_right_eq_some.mp h
      cases h
      exact hset rest
    | release =>
      cases h
      exact hset rest
    | python => cases h
    | add kind channel streamId =>
      obtain ⟨client, -, h⟩ := Option.bind_eq_some_iff.mp h
      cases h
      exact hset _
    | wait c =>
      obtain ⟨client, -, h⟩ := Option.bind_eq_some_iff.mp h
      obtain ⟨call, -, h⟩ := Option.bind_eq_some_iff.mp h
      cases hphase : call.phase with
      | waiting id =>
        rw [hphase] at h
        cases h
        rfl
      | _ =>
        rw [hphase] at h
        cases h
        exact hset rest
    | callbacks held n =>
      cases n with
      | zero =>
        cases h
        exact hset rest
      | succ n =>
        cases h
        exact hset _
    | native =>
      cases h
      exact hset rest
    | reply id accepted =>
      obtain ⟨client, -, h⟩ := Option.bind_eq_some_iff.mp h
      cases h
      exact hset rest

/-- A thread changes no code but its own. -/
theorem code_step {cfg : Config} {s s' : State} {u : Thread} {a : Action}
    (h : step cfg s a = some s') (hu : a.thread ≠ some u) : s'.code u = s.code u := by
  have hne : ∀ t, a.thread = some t → u ≠ t := by
    rintro t ht rfl
    exact hu ht
  cases a with
  | call t call =>
    simp only [step] at h
    split at h
    · split at h
      · cases h
      · cases h
        exact s.setCode_of_ne (hne t rfl) _
    · cases h
  | ret t =>
    simp only [step] at h
    split at h
    · cases h
      exact s.setCode_of_ne (hne t rfl) _
    · cases h
  | raises t =>
    simp only [step] at h
    split at h
    · cases h
      exact s.setCode_of_ne (hne t rfl) _
    · cases h
      exact s.setCode_of_ne (hne t rfl) _
    · cases h
  | switch t =>
    simp only [step] at h
    split at h
    · cases h
      exact s.setCode_of_ne (hne t rfl) _
    · cases h
  | exec t existing => exact code_exec h (hne t rfl)
  | send message =>
    obtain ⟨-, h⟩ := Option.ite_none_right_eq_some.mp h
    cases h
    rfl
  | process =>
    simp only [step] at h
    split at h
    · cases h
      exact s.setCode_of_ne (hne .conductor rfl) _
    · cases h

/-! ## Who has the GIL -/

/-- What an instruction does with the GIL; `waits` is what waiting for a resource asks for. -/
def Instr.use (waits : ScopedLock.Use) : Instr → ScopedLock.Use
  | .acquire => .acquire
  | .release => .release
  | .python => .needs
  | .add .. | .wait _ => waits
  | .callbacks held _ => if held then .needs else .lacks
  | .native => .free
  | .reply .. => .lacks

/-- The methods that wait may ask to be without the GIL if all of them have the guard. -/
def Config.Allows (cfg : Config) (waits : ScopedLock.Use) : Prop :=
  waits = .free ∨ waits = .lacks ∧ ∀ kind, cfg.guard (.add kind) = true

abbrev State.GilInv (waits : ScopedLock.Use) (s : State) : Prop :=
  ScopedLock.Inv (Instr.use waits) s.owner s.code

section Scoped

open ScopedLock

variable {cfg : Config} {waits : Use} {rest : List Instr}

/-- A callback takes the GIL if the thread does not have it, and leaves it as it was. -/
theorem callback_scoped {held : Bool} (hrest : Scoped (Instr.use waits) rest)
    (hholds : Holds (Instr.use waits) rest = held) :
    Scoped (Instr.use waits) (callback held rest) ∧
      Holds (Instr.use waits) (callback held rest) = held := by
  cases held with
  | true => simp [callback, Scoped, Holds, Instr.use, hrest, hholds]
  | false => simp [callback, Scoped, Holds, Instr.use, hrest, hholds]

theorem body_scoped (hallows : cfg.Allows waits) (call : Call) {held : Bool}
    (hheld : held = !cfg.guard call.method) (hrest : Scoped (Instr.use waits) rest)
    (hholds : Holds (Instr.use waits) rest = held) :
    Scoped (Instr.use waits) (call.body held :: rest) ∧
      Holds (Instr.use waits) (call.body held :: rest) = held := by
  cases call with
  | add kind channel streamId =>
    rcases hallows with rfl | ⟨rfl, hguard⟩
    · simp [Call.body, Scoped, Holds, Instr.use, hrest, hholds]
    · -- under the guard the body runs without the GIL
      rw [Call.method, hguard kind] at hheld
      subst hheld
      simp [Call.body, Scoped, Holds, Instr.use, hrest, hholds]
  | poll n | pollEos n =>
    cases held <;> simp [Call.body, Scoped, Holds, Instr.use, hrest, hholds]
  | other method => simp [Call.body, Scoped, Holds, Instr.use, hrest, hholds]

/-- A method is called with the GIL, and returns with it. -/
theorem code_scoped (hallows : cfg.Allows waits) (call : Call)
    (hrest : Scoped (Instr.use waits) rest) (hholds : Holds (Instr.use waits) rest = true) :
    Scoped (Instr.use waits) (call.code cfg.guard rest) ∧
      Holds (Instr.use waits) (call.code cfg.guard rest) = true := by
  unfold Call.code
  cases hguard : cfg.guard call.method with
  | true =>
    have hacquire : Scoped (Instr.use waits) (.acquire :: rest) := ⟨hrest, hholds⟩
    obtain ⟨hbody, hlacks⟩ := body_scoped hallows call (by rw [hguard]; rfl) hacquire rfl
    exact ⟨⟨hbody, hlacks⟩, rfl⟩
  | false => exact body_scoped hallows call (by rw [hguard]; rfl) hrest hholds

theorem message_scoped (cfg : Config) (waits : Use) (client : Client.State)
    (message : Message) :
    Scoped (Instr.use waits) (message.code cfg client) ∧
      Holds (Instr.use waits) (message.code cfg client) = false := by
  have hhandler : ∀ (setting : ContextSetting) {code : List Instr},
      Scoped (Instr.use waits) code → Holds (Instr.use waits) code = false →
      Scoped (Instr.use waits) (cfg.handlerCode setting code) ∧
        Holds (Instr.use waits) (cfg.handlerCode setting code) = false := by
    intro setting code hcode hholds
    unfold Config.handlerCode
    split
    · exact callback_scoped hcode hholds
    · exact ⟨hcode, hholds⟩
  cases message with
  | image available => exact hhandler _ trivial rfl
  | reply id accepted =>
    have hreply : Scoped (Instr.use waits) [.reply id accepted] := ⟨trivial, rfl⟩
    simp only [Message.code]
    split
    · split
      · exact hhandler _ hreply rfl
      · exact ⟨hreply, rfl⟩
    · exact ⟨hreply, rfl⟩

end Scoped

section Exclusive

open ScopedLock

variable {cfg : Config} {waits : Use} {s s' : State} {t : Thread}

/-- Every step of a thread's own keeps the GIL with the thread whose code has it. -/
theorem gilInv_runs (hallows : cfg.Allows waits) (hinv : s.GilInv waits)
    {owner : Option Thread} {code : List Instr} (h : Runs cfg t s.owner (s.code t) owner code) :
    State.GilInv waits { s.setCode t code with owner } := by
  have hscoped := hinv.isScoped t
  have hiff := hinv.owner_iff t
  generalize hold : s.code t = old at h hscoped hiff
  generalize howner : s.owner = before at h hiff
  -- what stays with the owner, for the code that holds the GIL as the old one does
  have hreplace : ∀ {new}, Scoped (Instr.use waits) new →
      Holds (Instr.use waits) new = Holds (Instr.use waits) old →
      ScopedLock.Inv (Instr.use waits) before (Function.update s.code t new) := by
    intro new hnew hholds
    rw [← hold] at hholds
    rw [← howner]
    exact hinv.replace hnew hholds
  cases h with
  | @call _ rest call _ =>
    obtain ⟨hnew, hholds⟩ := code_scoped hallows call hscoped rfl
    exact hreplace hnew hholds
  | ret => exact hreplace hscoped.1 hscoped.2
  | raises =>
    -- what follows the poll runs without the GIL until it takes it
    obtain ⟨⟨⟨hrest, hlacks⟩, -⟩, -⟩ := hscoped
    exact hreplace ⟨hrest, hlacks⟩ rfl
  | raisesHeld =>
    obtain ⟨⟨hrest, hholds⟩, -⟩ := hscoped
    exact hreplace hrest hholds
  | switch =>
    rw [← howner] at hiff
    exact hinv.release (hiff.mpr rfl) ⟨hscoped, rfl⟩ rfl
  | acquire =>
    have hnone : ScopedLock.Inv (Instr.use waits) none s.code := howner ▸ hinv
    exact hnone.acquire hscoped.1 hscoped.2
  | release =>
    rw [← howner] at hiff
    exact hinv.release (hiff.mpr rfl) hscoped.1 hscoped.2
  | @polled _ held rest =>
    cases held with
    | true => exact hreplace hscoped.1 hscoped.2
    | false => exact hreplace hscoped.1 hscoped.2
  | @callback _ held n rest =>
    -- the rest of the poll stands to the GIL as all of it does
    have hnext : Scoped (Instr.use waits) (.callbacks held n :: rest) ∧
        Holds (Instr.use waits) (.callbacks held n :: rest) = held := by
      cases held with
      | true => exact ⟨hscoped, rfl⟩
      | false => exact ⟨hscoped, rfl⟩
    obtain ⟨hnew, hholds⟩ := callback_scoped hnext.1 hnext.2
    apply hreplace hnew
    rw [hholds]
    cases held <;> rfl
  | native => exact hreplace hscoped.1 rfl

theorem gilInv_step (hallows : cfg.Allows waits) (hinv : s.GilInv waits)
    (h : Change cfg s s') : s'.GilInv waits := by
  cases h with
  | runs t owner code hruns h =>
    rw [h]
    exact gilInv_runs hallows hinv hruns
  | add t rest kind channel streamId existing called client hcode hcall hregister h =>
    rw [h]
    have hscoped := hinv.isScoped t
    rw [hcode] at hscoped
    exact hinv.replace hscoped (by rw [hcode]; rfl)
  | wait t rest c client call hcode hlookup hcall hphase h =>
    rw [h]
    exact hinv
  | found t rest c client call hcode hlookup hcall hphase h =>
    rw [h]
    have hscoped := hinv.isScoped t
    rw [hcode] at hscoped
    apply hinv.replace hscoped.1
    rw [hcode]
    rcases hallows with rfl | ⟨rfl, -⟩
    · rfl
    · exact hscoped.2
  | reply t rest id accepted client hcode hreply h =>
    rw [h]
    have hscoped := hinv.isScoped t
    rw [hcode] at hscoped
    apply hinv.replace hscoped.1
    rw [hcode]
    exact hscoped.2
  | send message hsend h =>
    rw [h]
    exact hinv
  | process message messages hcode hinbox h =>
    rw [h]
    obtain ⟨hnew, hholds⟩ := message_scoped cfg waits s.client message
    apply hinv.replace hnew
    rw [hholds, hcode]
    rfl

theorem gilInv_init : init.GilInv waits := by
  constructor
  · intro t
    cases t <;> simp [init, Scoped, Holds, Instr.use]
  · intro t
    cases t <;> simp [init, Holds, Instr.use]

theorem gilInv_run (hallows : cfg.Allows waits) {as : List Action}
    (h : StepMachine.run (step cfg) init as = some s) : s.GilInv waits := by
  apply StepMachine.run_invariant _ h gilInv_init
  intro u a u' hu ha
  exact gilInv_step hallows hu (change_of_step ha)

/-! ## The client of the threads -/

/-- The steps of the calls and of the client, without those of the proxies. -/
def Waiting : Client.Action → Prop
  | .call .. | .register .. | .lookup _ | .reply .. => True
  | .offer _ | .close _ | .drop _ => False

/-- A step of the threads is some steps of the client. -/
theorem client_change (h : Change cfg s s') :
    ∃ bs, (∀ b ∈ bs, Waiting b) ∧ StepMachine.run Client.step s.client bs = some s'.client := by
  cases h with
  | runs t owner code hruns h =>
    rw [h]
    exact ⟨[], nofun, rfl⟩
  | add t rest kind channel streamId existing called client hcode hcall hregister h =>
    rw [h]
    refine ⟨[.call kind channel streamId, .register s.client.calls.length existing], ?_, ?_⟩
    · simp [Waiting]
    · rw [StepMachine.run_cons, hcall, Option.bind_some, StepMachine.run_cons, hregister]
      rfl
  | wait t rest c client call hcode hlookup hcall hphase h =>
    rw [h]
    refine ⟨[.lookup c], by simp [Waiting], ?_⟩
    rw [StepMachine.run_cons, hlookup]
    rfl
  | found t rest c client call hcode hlookup hcall hphase h =>
    rw [h]
    refine ⟨[.lookup c], by simp [Waiting], ?_⟩
    rw [StepMachine.run_cons, hlookup]
    rfl
  | reply t rest id accepted client hcode hreply h =>
    rw [h]
    refine ⟨[.reply id accepted], by simp [Waiting], ?_⟩
    rw [StepMachine.run_cons, hreply]
    rfl
  | send message hsend h =>
    rw [h]
    exact ⟨[], nofun, rfl⟩
  | process message messages hcode hinbox h =>
    rw [h]
    exact ⟨[], nofun, rfl⟩

/-- A run of the threads is a run of the client. -/
theorem client_run {as : List Action} (h : StepMachine.run (step cfg) s as = some s') :
    ∃ bs, (∀ b ∈ bs, Waiting b) ∧ StepMachine.run Client.step s.client bs = some s'.client := by
  induction as generalizing s with
  | nil =>
    cases h
    exact ⟨[], nofun, rfl⟩
  | cons a as ih =>
    obtain ⟨s₁, ha, has⟩ := StepMachine.run_cons_eq_some.mp h
    obtain ⟨bs, hbs, hfirst⟩ := client_change (change_of_step ha)
    obtain ⟨cs, hcs, hrest⟩ := ih has
    refine ⟨bs ++ cs, ?_, StepMachine.run_append_eq_some.mpr ⟨_, hfirst, hrest⟩⟩
    intro b hb
    rcases List.mem_append.mp hb with hb | hb
    · exact hbs b hb
    · exact hcs b hb

/-! ## Python code -/

/-- The thread is running Python code. -/
def State.InPython (s : State) (t : Thread) : Prop := ∃ rest, s.code t = .python :: rest

/-- **One thread at a time.** Whatever methods have the guard, a thread that runs Python code,
its own, a poll's handler or a handler of the context, has the GIL, so no two threads run
Python code at once. What the threads do to the client is a run of it. -/
theorem python_exclusive {as : List Action}
    (h : StepMachine.run (step cfg) init as = some s) :
    (∀ t, s.InPython t → s.owner = some t) ∧
      (∀ t u, s.InPython t → s.InPython u → t = u) ∧
      ∃ bs, (∀ b ∈ bs, Waiting b) ∧
        StepMachine.run Client.step Client.init bs = some s.client := by
  have hinv : s.GilInv .free := gilInv_run (Or.inl rfl) h
  have howner : ∀ t, s.InPython t → s.owner = some t := by
    intro t ht
    obtain ⟨rest, hcode⟩ := ht
    exact hinv.owner_of_needs hcode rfl
  refine ⟨howner, ?_, client_run h⟩
  intro t u ht hu
  exact Option.some.inj ((howner t ht).symm.trans (howner u hu))

end Exclusive

/-- The guards of the modules, and a handler for new subscriptions. -/
def subscriptionHandler : Config where
  guard := callGuard
  handles setting := setting = .newSubscriptionHandler

/-- A thread adds a subscription. While it waits without the GIL, the driver replies and the
thread of the client calls the handler. -/
def handlerCalled : List Action :=
  [.exec (.program 0) none, .call (.program 0) (.add .subscription "aeron:ipc" 1000),
    .exec (.program 0) none, .exec (.program 0) none, .exec (.program 0) none,
    .send (.reply 0 true), .process, .exec .conductor none]

theorem python_exclusive_handlerCalled :
    ∃ s, StepMachine.run (step subscriptionHandler) init handlerCalled = some s ∧
      s.InPython .conductor ∧ s.owner = some .conductor := by
  have hrun : StepMachine.run (step subscriptionHandler) init handlerCalled = some _ := rfl
  exact ⟨_, hrun, ⟨_, rfl⟩, (python_exclusive hrun).1 _ ⟨_, rfl⟩⟩

end Threads

end AeronPy
