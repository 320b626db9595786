import AeronPy.Callbacks
import AeronPy.ContextOverlay
import AeronPy.Deadlock

/-!
# Clients that are invoked

With `user_conductor_agent_invoker` the constructor of `context` tells Aeron to start no thread
for the client: the application is to invoke its conductor instead. None of the modules binds
anything that does. A lookup may then throw when the driver timeout is over, which is not part
of the model; it never gives the resource.

* `contextConfig`, `contextStep`: the threads of a program with one context;
* `NothingReady`: what holds in every state that they reach without the thread of the client;
* `adds_return_iff`: the methods that add resources can return one iff the client was given a
  thread.
-/

namespace AeronPy

namespace Threads

open StepMachine (Reaches)

variable {O : Type} {cfg : Config} {s s' : State}

/-! ## Programs with a context -/

/-- The handlers that the context has from the program. -/
def contextHandles (ctx : AeronContext O) : ContextSetting → Bool
  | .errorHandler => (ctx .errorHandler).isSome
  | .newPublicationHandler => (ctx .newPublicationHandler).isSome
  | .newExclusivePublicationHandler => (ctx .newExclusivePublicationHandler).isSome
  | .newSubscriptionHandler => (ctx .newSubscriptionHandler).isSome
  | .availableImageHandler => (ctx .availableImageHandler).isSome
  | .unavailableImageHandler => (ctx .unavailableImageHandler).isSome
  | .aeronDir | .mediaDriverTimeout | .resourceLingerTimeout | .useConductorAgentInvoker => false

/-- The guards of the modules, and the handlers of the context. -/
def contextConfig (ctx : AeronContext O) : Config := ⟨callGuard, contextHandles ctx⟩

/-- One step in a program with the context. A client with an invoker has no thread. -/
def contextStep (ctx : AeronContext O) (s : State) (a : Action) : Option State :=
  if ctx .useConductorAgentInvoker = true ∧ a.thread = some .conductor then none
  else step (contextConfig ctx) s a

theorem step_of_contextStep {ctx : AeronContext O} {a : Action}
    (h : contextStep ctx s a = some s') :
    step (contextConfig ctx) s a = some s' ∧
      (ctx .useConductorAgentInvoker = true → a.thread ≠ some .conductor) := by
  obtain ⟨hthread, hstep⟩ := Option.ite_none_left_eq_some.mp h
  exact ⟨hstep, fun hinvoker hconductor => hthread ⟨hinvoker, hconductor⟩⟩

/-- A client with a thread of its own takes all the steps. -/
theorem contextStep_of_thread {ctx : AeronContext O}
    (h : ctx .useConductorAgentInvoker = false) : contextStep ctx = step (contextConfig ctx) := by
  funext s a
  unfold contextStep
  rw [if_neg]
  rw [h]
  exact fun hboth => Bool.false_ne_true hboth.1

/-! ## Without the thread of the client -/

/-- No registration has been replied to, and no call has ended. -/
structure AllPending (client : Client.State) : Prop where
  registrations : ∀ id registration, client.registrations id = some registration →
    registration.status = .pending
  calls : ∀ call ∈ client.calls, call.phase = .started ∨ ∃ id, call.phase = .waiting id

/-- Every lookup gives null. -/
theorem find_of_allPending {client : Client.State} (h : AllPending client) (kind : Client.Kind)
    (id : ℕ) : Client.find client kind id = .ok none := by
  unfold Client.find
  cases hreg : client.registrations id with
  | none => rfl
  | some registration =>
    simp only [h.registrations id registration hreg, ite_self]

theorem allPending_setCall {client : Client.State} (h : AllPending client) {call : Client.Call}
    (hcall : ∃ id, call.phase = .waiting id) (c : ℕ) : AllPending (client.setCall c call) where
  registrations := h.registrations
  calls := by
    intro call' hmem
    rcases List.mem_or_eq_of_mem_set hmem with hmem | rfl
    · exact h.calls call' hmem
    · exact Or.inr hcall

/-- The steps of the calls that add resources. -/
def Adds : Client.Action → Prop
  | .call .. | .register .. | .lookup _ => True
  | .reply .. | .offer _ | .close _ | .drop _ => False

/-- The calls themselves change nothing of that. -/
theorem allPending_step {client client' : Client.State} {a : Client.Action}
    (h : AllPending client) (hstep : Client.step client a = some client') (ha : Adds a) :
    AllPending client' := by
  cases a with
  | call kind channel streamId =>
    cases hstep
    refine ⟨h.registrations, List.forall_mem_append.mpr ⟨h.calls, ?_⟩⟩
    exact List.forall_mem_singleton.mpr (Or.inl rfl)
  | register c existing =>
    obtain ⟨call, hcall, hphase, hregistered⟩ := Client.step_register hstep
    obtain ⟨id, -, -, rfl⟩ | ⟨-, rfl⟩ := hregistered
    · exact allPending_setCall h ⟨id, rfl⟩ c
    · have hset : AllPending (client.setCall c { call with phase := .waiting client.nextId }) :=
        allPending_setCall h ⟨_, rfl⟩ c
      refine ⟨?_, hset.calls⟩
      intro id registration hreg
      by_cases hid : id = client.nextId
      · rw [hid, Client.State.setRegistration_self] at hreg
        cases hreg
        rfl
      · rw [Client.State.setRegistration_of_ne _ hid] at hreg
        exact hset.registrations id registration hreg
  | lookup c =>
    obtain ⟨call, id, -, -, rfl⟩ := Client.step_lookup_iff.mp hstep
    rw [find_of_allPending h]
    exact allPending_setCall h ⟨id, rfl⟩ c
  | reply | offer | close | drop => exact ha.elim

/-- Without the thread of the client nothing is replied to, and no handler of the context is
called. -/
structure NothingReady (s : State) : Prop where
  inv : Inv s
  client : AllPending s.client
  conductor : s.code .conductor = []

theorem nothingReady_init : NothingReady init where
  inv := inv_init
  client := ⟨nofun, nofun⟩
  conductor := rfl

theorem nothingReady_step {a : Action} (hs : NothingReady s)
    (ha : a.thread ≠ some .conductor) (h : step cfg s a = some s') : NothingReady s' where
  inv := inv_step hs.inv (change_of_step h)
  conductor := (code_step h ha).trans hs.conductor
  client := by
    cases change_of_step h with
    | runs t owner code hruns h => exact h ▸ hs.client
    | add t rest kind channel streamId existing called client hcode hcall hregister h =>
      have hcalled := allPending_step hs.client hcall trivial
      exact h ▸ allPending_step hcalled hregister trivial
    | wait t rest c client call hcode hlookup hcall hphase h =>
      exact h ▸ allPending_step hs.client hlookup trivial
    | found t rest c client call hcode hlookup hcall hphase h =>
      exact h ▸ allPending_step hs.client hlookup trivial
    | reply t rest id accepted client hcode hreply h =>
      -- only the thread of the client processes replies
      have hallowed := allowed_head (hs.inv.code t) hcode
      cases t with
      | conductor =>
        rw [hs.conductor] at hcode
        cases hcode
      | program i => exact hallowed.elim
    | send message hsend h => exact h ▸ hs.client
    | process message messages hcode hinbox h => exact h ▸ hs.client

theorem nothingReady_reaches {ctx : AeronContext O}
    (hinvoker : ctx .useConductorAgentInvoker = true) (h : Reaches (contextStep ctx) init s) :
    NothingReady s := by
  refine StepMachine.invariant_of_reaches ?_ h nothingReady_init
  intro u a u' hu ha
  obtain ⟨hstep, hthread⟩ := step_of_contextStep ha
  exact nothingReady_step hu (hthread hinvoker) hstep

/-! ## With the thread of the client -/

/-- The thread of the client can call a handler while nobody has the GIL. -/
theorem reaches_handled {setting : ContextSetting} {rest : List Instr} (howner : s.owner = none)
    (hcode : s.code .conductor = cfg.handlerCode setting rest) :
    Reaches (step cfg) s (s.setCode .conductor rest) := by
  unfold Config.handlerCode callback at hcode
  by_cases hhandles : cfg.handles setting = true
  · rw [if_pos hhandles, if_neg Bool.false_ne_true] at hcode
    let s₁ : State :=
      { s.setCode .conductor (.python :: .release :: rest) with owner := some .conductor }
    let s₂ : State := s₁.setCode .conductor (.release :: rest)
    have h₁ : step cfg s (.exec .conductor none) = some s₁ := by
      simp only [step, hcode, exec, howner, if_true]
      rfl
    have h₂ : step cfg s₁ (.ret .conductor) = some s₂ := by
      simp only [step, s₁, s.setCode_self]
      rfl
    have h₃ : step cfg s₂ (.exec .conductor none) = some (s.setCode .conductor rest) := by
      have hcode₂ : s₂.code .conductor = .release :: rest := s₁.setCode_self ..
      rw [step_exec none hcode₂]
      simp only [exec, s₂, s₁, State.setCode, Function.update_idem, howner]
    apply StepMachine.reaches_of_step_of_reaches h₁
    apply StepMachine.reaches_of_step_of_reaches h₂
    exact StepMachine.reaches_of_step h₃
  · rw [if_neg hhandles] at hcode
    have hsame : s.setCode .conductor rest = s := by
      unfold State.setCode
      rw [← hcode, Function.update_eq_self]
    rw [hsame]
    exact StepMachine.reaches_refl s

/-- A call of the method for the resource has returned it. -/
def HasReturned (s : State) (kind : Client.Kind) (channel : String) (streamId : Int32) : Prop :=
  ∃ call ∈ s.client.calls, call.kind = kind ∧ call.channel = channel ∧
    call.streamId = streamId ∧ ∃ id resource, call.phase = .returned id (some resource)

/-- A first `add` that the driver accepts returns. -/
theorem reaches_returned {kind : Client.Kind} (hguard : cfg.guard (.add kind) = true)
    (channel : String) (streamId : Int32) :
    ∃ s, Reaches (step cfg) init s ∧ HasReturned s kind channel streamId := by
  let later : List Instr := [.acquire, .python, .release]
  let s₁ : State :=
    { init.setCode (.program 0) [.python, .release] with owner := some (.program 0) }
  let s₂ : State := s₁.setCode (.program 0) (.release :: .add kind channel streamId :: later)
  let s₃ : State :=
    { s₂.setCode (.program 0) (.add kind channel streamId :: later) with owner := none }
  let s₄ : State :=
    { s₃.setCode (.program 0) (.wait 0 :: later) with client := firstAdd kind channel streamId }
  let s₅ : State := { s₄ with inbox := [.reply 0 true] }
  let s₆ : State :=
    { s₅.setCode .conductor (cfg.handlerCode (newHandler kind) [.reply 0 true]) with inbox := [] }
  let s₇ : State := s₆.setCode .conductor [.reply 0 true]
  let registered : Client.State := (firstAdd kind channel streamId).setRegistration 0
    ⟨kind, channel, streamId, .ready, false⟩
  let s₈ : State := { s₇.setCode .conductor [] with client := registered }
  let returned : Client.Call := ⟨kind, channel, streamId, Client.addCall kind channel streamId,
    .returned 0 (some 0), [.ok (some 0)]⟩
  let s₉ : State :=
    { s₈.setCode (.program 0) later with client := { registered with calls := [returned] } }
  have h₁ : step cfg init (.exec (.program 0) none) = some s₁ := rfl
  have h₂ : step cfg s₁ (.call (.program 0) (.add kind channel streamId)) = some s₂ := by
    have hcode : (Call.add kind channel streamId).code cfg.guard [.python, .release] =
        .release :: .add kind channel streamId :: later := by
      simp [Call.code, Call.method, Call.body, hguard, later]
    change some (s₁.setCode (.program 0) (Call.code cfg.guard _ _)) = some s₂
    rw [hcode]
  have h₃ : step cfg s₂ (.exec (.program 0) none) = some s₃ := rfl
  have h₄ : step cfg s₃ (.exec (.program 0) none) = some s₄ := by
    cases kind <;> rfl
  have h₅ : step cfg s₄ (.send (.reply 0 true)) = some s₅ := by
    cases kind <;> rfl
  have h₆ : step cfg s₅ .process = some s₆ := rfl
  have hcode₆ : s₆.code .conductor = cfg.handlerCode (newHandler kind) [.reply 0 true] :=
    s₅.setCode_self .conductor _
  have h₇ : Reaches (step cfg) s₆ s₇ := reaches_handled rfl hcode₆
  have hcode₇ : s₇.code .conductor = [.reply 0 true] := s₆.setCode_self .conductor _
  have h₈ : step cfg s₇ (.exec .conductor none) = some s₈ := by
    rw [step_exec none hcode₇]
    rfl
  have h₉ : step cfg s₈ (.exec (.program 0) none) = some s₉ := by
    cases kind <;> rfl
  refine ⟨s₉, ?_, returned, List.mem_cons_self, rfl, rfl, rfl, 0, 0, rfl⟩
  apply StepMachine.reaches_of_step_of_reaches h₁
  apply StepMachine.reaches_of_step_of_reaches h₂
  apply StepMachine.reaches_of_step_of_reaches h₃
  apply StepMachine.reaches_of_step_of_reaches h₄
  apply StepMachine.reaches_of_step_of_reaches h₅
  apply StepMachine.reaches_of_step_of_reaches h₆
  apply StepMachine.reaches_trans h₇
  apply StepMachine.reaches_of_step_of_reaches h₈
  exact StepMachine.reaches_of_step h₉

/-! ## What the option does -/

/-- What the keyword arguments say about the invoker. -/
def invoker [Pybind O] (defaults : ContextDefaults) (args : Kwargs O) : Bool :=
  ((args.lookup "user_conductor_agent_invoker").bind Pybind.castBool).getD
    defaults.useConductorAgentInvoker

theorem useConductorAgentInvoker_eq [Pybind O] {defaults : ContextDefaults}
    {env : Option StdString} {args : Kwargs O} {ctx : AeronContext O}
    (h : Context.context defaults env args = .ok ctx) :
    ctx .useConductorAgentInvoker = invoker defaults args := by
  have hfaithful := Context.context_eq_ok_iff.mp h .useConductorAgentInvoker
  have hkey : ContextSetting.useConductorAgentInvoker.key ≠ "aeron_dir" := by decide
  rw [KeyedOverlay.Faithful, Context.given_of_ne hkey, ContextSetting.key] at hfaithful
  unfold invoker
  cases hlookup : args.lookup "user_conductor_agent_invoker" with
  | none =>
    rw [hlookup] at hfaithful
    have hne : ContextSetting.useConductorAgentInvoker ≠ .aeronDir := by decide
    exact hfaithful.trans (Context.environment_of_ne hne env defaults.context)
  | some v =>
    rw [hlookup] at hfaithful
    have hcast : Pybind.castBool v = some (ctx .useConductorAgentInvoker) := hfaithful
    rw [Option.bind_some, hcast]
    rfl

/-- **The invoker.** The methods of a context that add resources can return one iff its client
has a thread of its own. Where the keyword arguments ask for an invoker, no method that the
modules bind invokes it: whatever the threads and the driver do, no call returns, no
registration becomes ready, and no handler of the context runs. -/
theorem adds_return_iff [Pybind O] {defaults : ContextDefaults} {env : Option StdString}
    {args : Kwargs O} {ctx : AeronContext O} (h : Context.context defaults env args = .ok ctx) :
    (∀ kind channel streamId, (∃ s, Reaches (contextStep ctx) init s ∧
        HasReturned s kind channel streamId) ↔ invoker defaults args = false) ∧
      (invoker defaults args = true → ∀ s, Reaches (contextStep ctx) init s →
        AllPending s.client ∧ ¬s.InPython .conductor) := by
  have hinvoker := useConductorAgentInvoker_eq h
  refine ⟨fun kind channel streamId => ⟨?_, fun hthread => ?_⟩, fun hinvoked s hs => ?_⟩
  · rintro ⟨s, hs, call, hmem, -, -, -, id, resource, hphase⟩
    by_contra hinvoked
    rw [Bool.not_eq_false, ← hinvoker] at hinvoked
    have hpending := (nothingReady_reaches hinvoked hs).client.calls call hmem
    rw [hphase] at hpending
    simp at hpending
  · rw [contextStep_of_thread (hinvoker.trans hthread)]
    exact reaches_returned rfl channel streamId
  · have hnothing := nothingReady_reaches (hinvoker.trans hinvoked) hs
    refine ⟨hnothing.client, ?_⟩
    rintro ⟨rest, hcode⟩
    rw [hnothing.conductor] at hcode
    cases hcode

/-- `Context(user_conductor_agent_invoker=True)`. -/
theorem adds_return_iff_invoked :
    ∃ ctx, Context.context Context.defaultContext none
        (AList.singleton "user_conductor_agent_invoker" (PyValue.bool true)) = .ok ctx ∧
      ∀ kind channel streamId, ¬∃ s, Reaches (contextStep ctx) init s ∧
        HasReturned s kind channel streamId := by
  have hcontext : Context.context Context.defaultContext none
      (AList.singleton "user_conductor_agent_invoker" (PyValue.bool true)) = .ok _ := rfl
  refine ⟨_, hcontext, fun kind channel streamId hreturns => ?_⟩
  have hinvoker := ((adds_return_iff hcontext).1 kind channel streamId).mp hreturns
  cases hinvoker

end Threads

end AeronPy
