import AeronPy.Client
import Mathlib.Data.List.Induction

/-!
# Registration waits never cross

However the calls, the replies of the driver and the program interleave, every call that
returns has the resource that is registered under the id its own `add` obtained, of the kind,
channel and stream that it asked for: `waits_never_cross`.

* `Evolves`: what may become of a registration;
* `CallOk`, `Inv`: how far a call is and what it has looked up, against the registrations;
* `inv_step`, `inv_run`: every step keeps it;
* `CallsKept`, `id_iff_obtained`: the id of a call is the one that it got when it registered.
-/

namespace AeronPy

namespace Client

/-! ## Registrations evolve -/

/-- The same resource, and its status has not gone back. -/
structure Evolves (registration registration' : Registration) : Prop where
  kind : registration'.kind = registration.kind
  channel : registration'.channel = registration.channel
  streamId : registration'.streamId = registration.streamId
  ready : registration.status = .ready →
    registration'.status = .ready ∨ registration'.status = .released
  refused : registration.status = .refused → registration'.status = .refused
  released : registration.status = .released → registration'.status = .released

theorem evolves_refl (registration : Registration) : Evolves registration registration :=
  ⟨rfl, rfl, rfl, Or.inl, id, id⟩

/-- Every registration of `s` is still there. -/
def Kept (s s' : State) : Prop :=
  ∀ id registration, s.registrations id = some registration →
    ∃ registration', s'.registrations id = some registration' ∧
      Evolves registration registration'

theorem kept_refl (s : State) : Kept s s := fun _ registration h =>
  ⟨registration, h, evolves_refl registration⟩

theorem kept_setRegistration {s : State} {id : ℕ} {registration registration' : Registration}
    (h : s.registrations id = some registration) (hevolves : Evolves registration registration') :
    Kept s (s.setRegistration id registration') := by
  intro other old hold
  by_cases hother : other = id
  · subst hother
    rw [h, Option.some_inj] at hold
    exact ⟨registration', s.setRegistration_self other registration', hold ▸ hevolves⟩
  · exact ⟨old, (s.setRegistration_of_ne hother registration').trans hold, evolves_refl old⟩

/-! ## Calls -/

/-- The id is registered for what the call asked for. -/
def Registered (s : State) (call : Call) (id : ℕ) (status : Status → Prop) : Prop :=
  ∃ registration, s.registrations id = some registration ∧ registration.kind = call.kind ∧
    registration.channel = call.channel ∧ registration.streamId = call.streamId ∧
    status registration.status

/-- A resource that was found is ready, or was and is gone. -/
def Status.Found (status : Status) : Prop := status = .ready ∨ status = .released

/-- The lookups before the last one were all null. -/
def AllNull (lookups : List Lookup) : Prop := ∀ lookup ∈ lookups, lookup = .ok none

/-- Where a call is, it has the right id, and it looked up no longer than it had to. -/
def CallOk (s : State) (call : Call) : Prop :=
  match call.phase with
  | .started => call.lookups = []
  | .waiting id => Registered s call id (fun _ => True) ∧ AllNull call.lookups
  | .returned id resource | .dropped id resource =>
    resource = some id ∧ Registered s call id Status.Found ∧
      ∃ nulls, AllNull nulls ∧ call.lookups = nulls ++ [.ok (some id)]
  | .raised id => Registered s call id (· = .refused) ∧
      ∃ nulls e, AllNull nulls ∧ call.lookups = nulls ++ [.error e]

theorem registered_mono {s s' : State} {call : Call} {id : ℕ} {status : Status → Prop}
    (hkept : Kept s s') (hstatus : ∀ {registration registration'},
      Evolves registration registration' → status registration.status →
      status registration'.status)
    (h : Registered s call id status) : Registered s' call id status := by
  obtain ⟨registration, hreg, hkind, hchannel, hstream, hs⟩ := h
  obtain ⟨registration', hreg', hevolves⟩ := hkept id registration hreg
  exact ⟨registration', hreg', hevolves.kind.trans hkind, hevolves.channel.trans hchannel,
    hevolves.streamId.trans hstream, hstatus hevolves hs⟩

theorem found_mono {registration registration' : Registration}
    (hevolves : Evolves registration registration') (h : registration.status.Found) :
    registration'.status.Found := by
  rcases h with h | h
  · exact hevolves.ready h
  · exact Or.inr (hevolves.released h)

theorem callOk_mono {s s' : State} {call : Call} (hkept : Kept s s') (h : CallOk s call) :
    CallOk s' call := by
  unfold CallOk at h ⊢
  cases hphase : call.phase with
  | started =>
    rw [hphase] at h
    exact h
  | waiting id =>
    rw [hphase] at h
    exact ⟨registered_mono hkept (fun _ _ => trivial) h.1, h.2⟩
  | returned id resource =>
    rw [hphase] at h
    exact ⟨h.1, registered_mono hkept found_mono h.2.1, h.2.2⟩
  | raised id =>
    rw [hphase] at h
    exact ⟨registered_mono hkept Evolves.refused h.1, h.2⟩
  | dropped id resource =>
    rw [hphase] at h
    exact ⟨h.1, registered_mono hkept found_mono h.2.1, h.2.2⟩

/-! ## The invariant -/

structure Inv (s : State) : Prop where
  lt : ∀ id registration, s.registrations id = some registration → id < s.nextId
  body : ∀ call ∈ s.calls, call.body = addCall call.kind call.channel call.streamId
  callOk : ∀ call ∈ s.calls, CallOk s call

theorem inv_init : Inv init := ⟨nofun, nofun, nofun⟩

/-- A registration is updated: the calls are where they were. -/
theorem inv_setRegistration {s : State} (hinv : Inv s) {id : ℕ}
    {registration registration' : Registration} (h : s.registrations id = some registration)
    (hevolves : Evolves registration registration') :
    Inv (s.setRegistration id registration') where
  lt other old hold := by
    by_cases hother : other = id
    · exact hother ▸ hinv.lt id registration h
    · exact hinv.lt other old ((s.setRegistration_of_ne hother registration').symm.trans hold)
  body := hinv.body
  callOk call hcall := callOk_mono (kept_setRegistration h hevolves) (hinv.callOk call hcall)

/-- A call is updated: the registrations are as they were. -/
theorem inv_setCall {s : State} (hinv : Inv s) {c : ℕ} {call : Call}
    (hbody : call.body = addCall call.kind call.channel call.streamId) (hcall : CallOk s call) :
    Inv (s.setCall c call) where
  lt := hinv.lt
  body call' hmem := by
    rcases State.mem_setCall hmem with hmem | rfl
    · exact hinv.body call' hmem
    · exact hbody
  callOk call' hmem := by
    rcases State.mem_setCall hmem with hmem | rfl
    · exact hinv.callOk call' hmem
    · exact hcall

/-- A lookup gives null, the call's own resource, or throws, as the registration stands. -/
theorem find_of_registered {s : State} {call : Call} {id : ℕ} {status : Status → Prop}
    (hbody : call.body = addCall call.kind call.channel call.streamId)
    (h : Registered s call id status) :
    ∃ registration, s.registrations id = some registration ∧ status registration.status ∧
      find s call.body.finds id =
        match registration.status with
        | .pending | .released => .ok none
        | .ready => .ok (some id)
        | .refused => .error (.foreign .runtimeError) := by
  obtain ⟨registration, hreg, hkind, -, -, hs⟩ := h
  refine ⟨registration, hreg, hs, ?_⟩
  rw [hbody, addCall_eq, ← hkind]
  exact find_eq hreg

/-- One round of the wait loop. -/
theorem callOk_receive {s : State} {call : Call} {id : ℕ}
    (hbody : call.body = addCall call.kind call.channel call.streamId)
    (hphase : call.phase = .waiting id) (h : CallOk s call) :
    CallOk s (call.receive id (find s call.body.finds id)) := by
  simp only [CallOk, hphase] at h
  obtain ⟨hregistered, hnull⟩ := h
  obtain ⟨registration, hreg, -, hfind⟩ := find_of_registered hbody hregistered
  obtain ⟨registration', hreg', hkind, hchannel, hstream, -⟩ := hregistered
  rw [hreg, Option.some_inj] at hreg'
  subst hreg'
  rw [hfind]
  -- null: one more null lookup, and the call waits on
  have hnext : AllNull (call.lookups ++ [.ok none]) := by
    intro lookup hmem
    rcases List.mem_append.mp hmem with hmem | hmem
    · exact hnull lookup hmem
    · exact List.mem_singleton.mp hmem
  cases hstatus : registration.status with
  | pending => exact ⟨⟨registration, hreg, hkind, hchannel, hstream, trivial⟩, hnext⟩
  | released => exact ⟨⟨registration, hreg, hkind, hchannel, hstream, trivial⟩, hnext⟩
  | ready =>
    exact ⟨rfl, ⟨registration, hreg, hkind, hchannel, hstream, Or.inl hstatus⟩, call.lookups,
      hnull, rfl⟩
  | refused =>
    exact ⟨⟨registration, hreg, hkind, hchannel, hstream, hstatus⟩, call.lookups, _, hnull, rfl⟩

theorem kept_register {s : State} (hinv : Inv s) (registration : Registration) :
    Kept s { s.setRegistration s.nextId registration with nextId := s.nextId + 1 } := by
  intro id old hold
  have hne : id ≠ s.nextId := (hinv.lt id old hold).ne
  exact ⟨old, (s.setRegistration_of_ne hne registration).trans hold, evolves_refl old⟩

/-- A fresh registration, before its call has the id. -/
theorem inv_register {s : State} (hinv : Inv s) (registration : Registration) :
    Inv { s.setRegistration s.nextId registration with nextId := s.nextId + 1 } where
  lt id old hold := by
    by_cases hid : id = s.nextId
    · exact hid ▸ Nat.lt_succ_self _
    · have hold' := (s.setRegistration_of_ne hid registration).symm.trans hold
      exact Nat.lt_succ_of_lt (hinv.lt id old hold')
  body := hinv.body
  callOk call hcall := callOk_mono (kept_register hinv registration) (hinv.callOk call hcall)

theorem inv_release {s : State} (hinv : Inv s) {resource : ℕ}
    (h : ∀ registration, s.registrations resource = some registration →
      registration.status.Found) : Inv (s.release resource) ∧ Kept s (s.release resource) := by
  rcases s.release_cases resource with heq | ⟨registration, hreg, heq⟩
  · rw [heq]
    exact ⟨hinv, kept_refl s⟩
  · rw [heq]
    have hevolves : Evolves registration { registration with status := .released } := by
      refine ⟨rfl, rfl, rfl, fun _ => Or.inr rfl, fun hrefused => ?_, fun _ => rfl⟩
      rcases h registration hreg with hready | hreleased
      · rw [hrefused] at hready
        cases hready
      · rw [hrefused] at hreleased
        cases hreleased
    exact ⟨inv_setRegistration hinv hreg hevolves, kept_setRegistration hreg hevolves⟩

/-- Every step keeps the invariant, and every registration. -/
theorem inv_step {s s' : State} {a : Action} (hinv : Inv s) (h : step s a = some s') :
    Inv s' ∧ Kept s s' := by
  cases a with
  | call kind channel streamId =>
    cases h
    refine ⟨⟨hinv.lt, fun call hmem => ?_, fun call hmem => ?_⟩, kept_refl s⟩
    -- the new call has neither an id nor lookups
    · rcases List.mem_append.mp hmem with hmem | hmem
      · exact hinv.body call hmem
      · rw [List.mem_singleton.mp hmem]
    · rcases List.mem_append.mp hmem with hmem | hmem
      · exact hinv.callOk call hmem
      · rw [List.mem_singleton.mp hmem]
        rfl
  | register c existing =>
    obtain ⟨call, hcall, hphase, hregister⟩ := step_register h
    have hmem := List.mem_of_getElem? hcall
    have hbody := hinv.body call hmem
    have hstarted := hinv.callOk call hmem
    simp only [CallOk, hphase] at hstarted
    have hnull : AllNull call.lookups := by
      rw [hstarted]
      exact nofun
    have hadds : call.body.adds = call.kind := by rw [hbody, addCall_eq]
    have hchannel : call.body.channel = call.channel := by rw [hbody, addCall_eq]
    have hstream : call.body.streamId = call.streamId := by rw [hbody, addCall_eq]
    rcases hregister with ⟨id, -, ⟨hkind, registration, hreg, hreg'⟩, rfl⟩ | ⟨-, rfl⟩
    · -- a publication shares the registration of an identical one
      have hregistered : Registered s call id fun _ => True :=
        ⟨registration, hreg, hreg'.1.trans (hkind.symm.trans hadds), hreg'.2.1.trans hchannel,
          hreg'.2.2.1.trans hstream, trivial⟩
      exact ⟨inv_setCall hinv hbody ⟨hregistered, hnull⟩, kept_refl s⟩
    · -- a fresh registration is for what the call asked for
      let fresh : Registration :=
        ⟨call.body.adds, call.body.channel, call.body.streamId, .pending, false⟩
      have hregistered : Registered { s.setRegistration s.nextId fresh with nextId := s.nextId + 1 }
          call s.nextId fun _ => True :=
        ⟨fresh, s.setRegistration_self s.nextId fresh, hadds, hchannel, hstream, trivial⟩
      exact ⟨inv_setCall (inv_register hinv fresh) hbody ⟨hregistered, hnull⟩,
        kept_register hinv fresh⟩
  | lookup c =>
    obtain ⟨call, id, hcall, hphase, rfl⟩ := step_lookup_iff.mp h
    have hmem := List.mem_of_getElem? hcall
    have hbody := hinv.body call hmem
    exact ⟨inv_setCall hinv hbody (callOk_receive hbody hphase (hinv.callOk call hmem)),
      kept_refl s⟩
  | reply id accepted =>
    obtain ⟨registration, hreg, hpending, rfl⟩ := step_reply h
    -- only a pending registration gets a reply
    have hevolves : Evolves registration
        { registration with status := if accepted then .ready else .refused } := by
      refine ⟨rfl, rfl, rfl, ?_, ?_, ?_⟩ <;>
      · intro hstatus
        rw [hpending] at hstatus
        cases hstatus
    exact ⟨inv_setRegistration hinv hreg hevolves, kept_setRegistration hreg hevolves⟩
  | offer c =>
    rw [step_offer h]
    exact ⟨hinv, kept_refl s⟩
  | close c =>
    obtain ⟨call, id, resource, registration, -, -, hreg, rfl⟩ := step_close h
    have hevolves : Evolves registration { registration with closed := true } :=
      ⟨rfl, rfl, rfl, Or.inl, fun h => h, fun h => h⟩
    exact ⟨inv_setRegistration hinv hreg hevolves, kept_setRegistration hreg hevolves⟩
  | drop c =>
    obtain ⟨call, id, resource, hcall, hphase, rfl⟩ := step_drop h
    have hmem := List.mem_of_getElem? hcall
    have hok := hinv.callOk call hmem
    simp only [CallOk, hphase] at hok
    obtain ⟨hresource, hregistered, hlookups⟩ := hok
    -- the resource that is dropped was found, so its registration is not a refused one
    have hfound : ∀ registration, s.registrations resource = some registration →
        registration.status.Found := by
      obtain ⟨registration, hreg, -, -, -, hstatus⟩ := hregistered
      intro registration' hreg'
      rw [Option.some.inj hresource, hreg, Option.some_inj] at hreg'
      exact hreg' ▸ hstatus
    have hdropped : Inv (s.setCall c { call with phase := .dropped id (some resource) }) :=
      inv_setCall hinv (hinv.body call hmem) ⟨hresource, hregistered, hlookups⟩
    exact inv_release hdropped hfound

theorem inv_of_step (s : State) (a : Action) (s' : State) (hinv : Inv s)
    (h : step s a = some s') : Inv s' :=
  (inv_step hinv h).1

theorem inv_run {s : State} {as : List Action} (h : StepMachine.run step init as = some s) :
    Inv s :=
  StepMachine.run_invariant inv_of_step h inv_init

theorem kept_trans {s s₁ s₂ : State} (h : Kept s s₁) (h' : Kept s₁ s₂) : Kept s s₂ := by
  intro id registration hreg
  obtain ⟨registration₁, hreg₁, h₁⟩ := h id registration hreg
  obtain ⟨registration₂, hreg₂, h₂⟩ := h' id registration₁ hreg₁
  refine ⟨registration₂, hreg₂, h₂.kind.trans h₁.kind, h₂.channel.trans h₁.channel,
    h₂.streamId.trans h₁.streamId, fun hready => ?_,
    fun hrefused => h₂.refused (h₁.refused hrefused),
    fun hreleased => h₂.released (h₁.released hreleased)⟩
  exact found_mono h₂ (h₁.ready hready)

theorem kept_run {s t : State} {as : List Action} (hinv : Inv s)
    (h : StepMachine.run step s as = some t) : Kept s t := by
  refine StepMachine.run_invariant_under inv_of_step ?_ h hinv (kept_refl s)
  intro u a u' hu hkept ha
  exact kept_trans hkept (inv_step hu ha).2

/-! ## The ids of the calls -/

/-- The id that the call has got. -/
def Phase.id? : Phase → Option ℕ
  | .started => none
  | .waiting id | .returned id _ | .raised id | .dropped id _ => some id

theorem id_receive (call : Call) (id : ℕ) (lookup : Lookup) :
    (call.receive id lookup).phase.id? = some id := by
  rcases lookup with e | _ | resource <;> rfl

theorem calls_release (s : State) (resource : ℕ) : (s.release resource).calls = s.calls := by
  rcases s.release_cases resource with heq | ⟨registration, -, heq⟩
  · rw [heq]
  · rw [heq]
    rfl

/-- The call later: it asks for the same, and an id that it has got stays. -/
structure SameCall (call call' : Call) : Prop where
  kind : call'.kind = call.kind
  channel : call'.channel = call.channel
  streamId : call'.streamId = call.streamId
  id : ∀ id, call.phase.id? = some id → call'.phase.id? = some id

theorem sameCall_refl (call : Call) : SameCall call call := ⟨rfl, rfl, rfl, fun _ h => h⟩

/-- Every call of `s` is still there. -/
def CallsKept (s s' : State) : Prop :=
  ∀ (c : ℕ) call, s.calls[c]? = some call → ∃ call', s'.calls[c]? = some call' ∧ SameCall call call'

theorem callsKept_refl (s : State) : CallsKept s s := fun _ call h =>
  ⟨call, h, sameCall_refl call⟩

theorem callsKept_trans {s s₁ s₂ : State} (h : CallsKept s s₁) (h' : CallsKept s₁ s₂) :
    CallsKept s s₂ := by
  intro c call hcall
  obtain ⟨call₁, hcall₁, h₁⟩ := h c call hcall
  obtain ⟨call₂, hcall₂, h₂⟩ := h' c call₁ hcall₁
  exact ⟨call₂, hcall₂, h₂.kind.trans h₁.kind, h₂.channel.trans h₁.channel,
    h₂.streamId.trans h₁.streamId, fun id hid => h₂.id id (h₁.id id hid)⟩

theorem callsKept_setCall {s : State} {c : ℕ} {call call' : Call}
    (hcall : s.calls[c]? = some call) (h : SameCall call call') :
    CallsKept s (s.setCall c call') := by
  intro c' old hold
  by_cases hc : c' = c
  · subst hc
    rw [hcall, Option.some_inj] at hold
    exact ⟨call', List.getElem?_set_self (List.getElem?_eq_some_iff.mp hcall).1, hold ▸ h⟩
  · exact ⟨old, (List.getElem?_set_ne (Ne.symm hc)).trans hold, sameCall_refl old⟩

/-- A step leaves what the calls ask for, and takes no id from a call. -/
theorem callsKept_step {s s' : State} {a : Action} (h : step s a = some s') : CallsKept s s' := by
  cases a with
  | call kind channel streamId =>
    cases h
    intro c call hcall
    have hc : c < s.calls.length := (List.getElem?_eq_some_iff.mp hcall).1
    exact ⟨call, (List.getElem?_append_left hc).trans hcall, sameCall_refl call⟩
  | register c existing =>
    obtain ⟨call, hcall, hphase, hregister⟩ := step_register h
    -- a call that registers has no id yet
    have hsame : ∀ id, SameCall call { call with phase := .waiting id } := by
      intro id
      refine ⟨rfl, rfl, rfl, fun id' hid => ?_⟩
      rw [hphase] at hid
      cases hid
    rcases hregister with ⟨id, -, -, rfl⟩ | ⟨-, rfl⟩
    · exact callsKept_setCall hcall (hsame id)
    · exact callsKept_setCall hcall (hsame s.nextId)
  | lookup c =>
    obtain ⟨call, id, hcall, hphase, rfl⟩ := step_lookup_iff.mp h
    apply callsKept_setCall hcall
    refine ⟨rfl, rfl, rfl, fun id' hid => ?_⟩
    rw [hphase] at hid
    rw [id_receive]
    exact hid
  | reply id accepted =>
    obtain ⟨registration, -, -, rfl⟩ := step_reply h
    exact callsKept_refl s
  | offer c =>
    rw [step_offer h]
    exact callsKept_refl s
  | close c =>
    obtain ⟨call, id, resource, registration, -, -, -, rfl⟩ := step_close h
    exact callsKept_refl s
  | drop c =>
    obtain ⟨call, id, resource, hcall, hphase, rfl⟩ := step_drop h
    have hsame : SameCall call { call with phase := .dropped id (some resource) } := by
      refine ⟨rfl, rfl, rfl, fun id' hid => ?_⟩
      rw [hphase] at hid
      exact hid
    unfold CallsKept
    rw [calls_release]
    exact callsKept_setCall hcall hsame

theorem callsKept_run {s t : State} {as : List Action} (h : StepMachine.run step s as = some t) :
    CallsKept s t := by
  refine StepMachine.run_invariant (I := CallsKept s) ?_ h (callsKept_refl s)
  intro u a u' hkept ha
  exact callsKept_trans hkept (callsKept_step ha)

/-- A call keeps the id that it got. -/
theorem id_step {s s' : State} {a : Action} {c id : ℕ} {call : Call}
    (hcall : s.calls[c]? = some call) (hid : call.phase.id? = some id)
    (h : step s a = some s') :
    ∃ call', s'.calls[c]? = some call' ∧ call'.phase.id? = some id := by
  obtain ⟨call', hcall', hsame⟩ := callsKept_step h c call hcall
  exact ⟨call', hcall', hsame.id id hid⟩

/-- A call that registers gets the id that the `add` returns. -/
theorem id_register {s s' : State} {c : ℕ} {existing : Option ℕ}
    (h : step s (.register c existing) = some s') :
    ∃ call, s'.calls[c]? = some call ∧ call.phase.id? = some (existing.getD s.nextId) := by
  obtain ⟨call, hcall, -, hregister⟩ := step_register h
  have hlt := (List.getElem?_eq_some_iff.mp hcall).1
  rcases hregister with ⟨id, rfl, -, rfl⟩ | ⟨rfl, rfl⟩
  · exact ⟨_, List.getElem?_set_self hlt, rfl⟩
  · exact ⟨_, List.getElem?_set_self hlt, rfl⟩

/-- A call that has an id after a step had it before, or has just registered. -/
theorem id_of_step {s s' : State} {a : Action} {c id : ℕ} {call' : Call}
    (h : step s a = some s') (hcall' : s'.calls[c]? = some call')
    (hid : call'.phase.id? = some id) :
    (∃ call, s.calls[c]? = some call ∧ call.phase.id? = some id) ∨
      ∃ existing, a = .register c existing ∧ existing.getD s.nextId = id := by
  -- only the call of the step itself has changed
  have hset : ∀ {c' : ℕ} {new : Call}, (s.calls.set c' new)[c]? = some call' → c' ≠ c →
      ∃ call, s.calls[c]? = some call ∧ call.phase.id? = some id := by
    intro c' new hnew hc
    exact ⟨call', (List.getElem?_set_ne hc).symm.trans hnew, hid⟩
  cases a with
  | call kind channel streamId =>
    cases h
    by_cases hc : c < s.calls.length
    · exact Or.inl ⟨call', (List.getElem?_append_left hc).symm.trans hcall', hid⟩
    · -- the new call has no id
      have hmem := List.mem_of_getElem? ((List.getElem?_append_right (by omega)).symm.trans hcall')
      rw [List.mem_singleton.mp hmem] at hid
      cases hid
  | register c' existing =>
    by_cases hc : c' = c
    · subst hc
      obtain ⟨call, hcall, hnew⟩ := id_register h
      rw [hcall', Option.some_inj] at hcall
      rw [← hcall, hid, Option.some_inj] at hnew
      exact Or.inr ⟨existing, rfl, hnew.symm⟩
    · obtain ⟨call, -, -, ⟨id', -, -, rfl⟩ | ⟨-, rfl⟩⟩ := step_register h
      · exact Or.inl (hset hcall' hc)
      · exact Or.inl (hset hcall' hc)
  | lookup c' =>
    obtain ⟨call, id', hcall, hphase, rfl⟩ := step_lookup_iff.mp h
    by_cases hc : c' = c
    · subst hc
      have hself := List.getElem?_set_self
        (a := call.receive id' (find s call.body.finds id')) (List.getElem?_eq_some_iff.mp hcall).1
      rw [← Option.some_inj.mp (hself.symm.trans hcall'), id_receive] at hid
      refine Or.inl ⟨call, hcall, ?_⟩
      rw [hphase]
      exact hid
    · exact Or.inl (hset hcall' hc)
  | reply id' accepted =>
    obtain ⟨registration, -, -, rfl⟩ := step_reply h
    exact Or.inl ⟨call', hcall', hid⟩
  | offer c' =>
    rw [step_offer h] at hcall'
    exact Or.inl ⟨call', hcall', hid⟩
  | close c' =>
    obtain ⟨call, id', resource, registration, -, -, -, rfl⟩ := step_close h
    exact Or.inl ⟨call', hcall', hid⟩
  | drop c' =>
    obtain ⟨call, id', resource, hcall, hphase, rfl⟩ := step_drop h
    rw [calls_release] at hcall'
    by_cases hc : c' = c
    · subst hc
      have hself := List.getElem?_set_self (List.getElem?_eq_some_iff.mp hcall).1
        (a := { call with phase := .dropped id' (some resource) })
      rw [← Option.some_inj.mp (hself.symm.trans hcall')] at hid
      refine Or.inl ⟨call, hcall, ?_⟩
      rw [hphase]
      exact hid
    · exact Or.inl (hset hcall' hc)

/-- In the run, the `add` of the call returned the id. -/
def Obtained (as : List Action) (c id : ℕ) : Prop :=
  ∃ before existing after u, as = before ++ .register c existing :: after ∧
    StepMachine.run step init before = some u ∧ existing.getD u.nextId = id

theorem obtained_append {as : List Action} {c id : ℕ} (h : Obtained as c id)
    (bs : List Action) : Obtained (as ++ bs) c id := by
  obtain ⟨before, existing, after, u, rfl, hu, hid⟩ := h
  exact ⟨before, existing, after ++ bs, u, by simp, hu, hid⟩

/-- The ids of the calls come from their `add`s; the induction is on the end of the run. -/
theorem obtained_of_id {as : List Action} {s : State} {c id : ℕ} {call : Call}
    (h : StepMachine.run step init as = some s) (hcall : s.calls[c]? = some call)
    (hid : call.phase.id? = some id) : Obtained as c id := by
  induction as using List.reverseRecOn generalizing s call with
  | nil =>
    cases h
    cases hcall
  | append_singleton as a ih =>
    obtain ⟨u, hu, ha⟩ := StepMachine.run_append_eq_some.mp h
    obtain ⟨s₁, hstep, hrest⟩ := StepMachine.run_cons_eq_some.mp ha
    cases hrest
    rcases id_of_step hstep hcall hid with ⟨call₀, hcall₀, hid₀⟩ | ⟨existing, rfl, hexisting⟩
    · exact obtained_append (ih hu hcall₀ hid₀) [a]
    · exact ⟨as, existing, [], u, rfl, hu, hexisting⟩

/-- The id of a call is the one that its own `add` returned. -/
theorem id_iff_obtained {as : List Action} {s : State} {c : ℕ} {call : Call}
    (h : StepMachine.run step init as = some s) (hcall : s.calls[c]? = some call) (id : ℕ) :
    call.phase.id? = some id ↔ Obtained as c id := by
  constructor
  · exact obtained_of_id h hcall
  · intro hobtained
    obtain ⟨before, existing, after, u, rfl, hu, rfl⟩ := hobtained
    obtain ⟨u₀, u₁, hu₀, hregister, hafter⟩ := StepMachine.run_append_cons_eq_some.mp h
    rw [hu, Option.some_inj] at hu₀
    subst hu₀
    -- the call has the id once it has registered, and keeps it
    obtain ⟨call₁, hcall₁, hid₁⟩ := id_register hregister
    obtain ⟨call', hcall', hsame⟩ := callsKept_run hafter c call₁ hcall₁
    rw [hcall, Option.some_inj] at hcall'
    rw [hcall']
    exact hsame.id _ hid₁

/-! ## Waits -/

/-- What a waiting call does next, as its registration stands. -/
def Status.next (status : Status) (id : ℕ) : Phase :=
  match status with
  | .pending | .released => .waiting id
  | .ready => .returned id (some id)
  | .refused => .raised id

/-- The next lookup of a waiting call decides by the status of its own registration. -/
theorem lookup_of_waiting {s : State} {c id : ℕ} {call : Call} (hinv : Inv s)
    (hcall : s.calls[c]? = some call) (hphase : call.phase = .waiting id) :
    ∃ registration s' call', s.registrations id = some registration ∧
      step s (.lookup c) = some s' ∧ s'.calls[c]? = some call' ∧
      call'.phase = registration.status.next id := by
  have hmem := List.mem_of_getElem? hcall
  have hok := hinv.callOk call hmem
  simp only [CallOk, hphase] at hok
  obtain ⟨registration, hreg, -, hfind⟩ := find_of_registered (hinv.body call hmem) hok.1
  refine ⟨registration, _, _, hreg, step_lookup_iff.mpr ⟨call, id, hcall, hphase, rfl⟩,
    List.getElem?_set_self (List.getElem?_eq_some_iff.mp hcall).1, ?_⟩
  rw [hfind]
  cases registration.status <;> rfl

/-- A call looks up until the first lookup that is not null, and no further. -/
def StopsLookingUp (call : Call) : Prop :=
  AllNull call.lookups ∨ ∃ nulls last, AllNull nulls ∧ call.lookups = nulls ++ [last] ∧
    ∀ id, call.phase ≠ .waiting id

theorem stopsLookingUp {s : State} {call : Call} (h : CallOk s call) : StopsLookingUp call := by
  unfold CallOk at h
  cases hphase : call.phase with
  | started =>
    rw [hphase] at h
    exact Or.inl (h ▸ nofun)
  | waiting id =>
    rw [hphase] at h
    exact Or.inl h.2
  | returned id resource =>
    rw [hphase] at h
    obtain ⟨-, -, nulls, hnull, hlookups⟩ := h
    exact Or.inr ⟨nulls, _, hnull, hlookups, by rw [hphase]; exact nofun⟩
  | raised id =>
    rw [hphase] at h
    obtain ⟨-, nulls, e, hnull, hlookups⟩ := h
    exact Or.inr ⟨nulls, _, hnull, hlookups, by rw [hphase]; exact nofun⟩
  | dropped id resource =>
    rw [hphase] at h
    obtain ⟨-, -, nulls, hnull, hlookups⟩ := h
    exact Or.inr ⟨nulls, _, hnull, hlookups, by rw [hphase]; exact nofun⟩

/-- After every run: the id of a call is the one that its own `add` returned; a call that
returned has the resource of that id, which was registered for what it asked for and became
ready; one that raised was refused; a waiting one returns, raises or waits on as its own
registration is ready, refused or neither; none looks up again after a lookup that was not null;
and what was ready or refused stays so, or is released, and the calls keep what they asked for
and the ids that they got. -/
theorem waits_never_cross {as : List Action} {s : State}
    (h : StepMachine.run step init as = some s) :
    (∀ (c : ℕ) call, s.calls[c]? = some call → ∀ id,
      call.phase.id? = some id ↔ Obtained as c id) ∧
    (∀ call ∈ s.calls, ∀ id resource,
      call.phase = .returned id resource ∨ call.phase = .dropped id resource →
        resource = some id ∧ Registered s call id Status.Found) ∧
    (∀ call ∈ s.calls, ∀ id, call.phase = .raised id → Registered s call id (· = .refused)) ∧
    (∀ (c : ℕ) call id, s.calls[c]? = some call → call.phase = .waiting id →
      ∃ registration s' call', s.registrations id = some registration ∧
        step s (.lookup c) = some s' ∧ s'.calls[c]? = some call' ∧
        call'.phase = registration.status.next id) ∧
    (∀ call ∈ s.calls, StopsLookingUp call) ∧
    ∀ bs t, StepMachine.run step s bs = some t → Kept s t ∧ CallsKept s t := by
  have hinv := inv_run h
  refine ⟨fun c call => id_iff_obtained h, fun call hmem id resource hphase => ?_,
    fun call hmem id hphase => ?_, fun c call id => lookup_of_waiting hinv,
    fun call hmem => stopsLookingUp (hinv.callOk call hmem),
    fun bs t ht => ⟨kept_run hinv ht, callsKept_run ht⟩⟩
  · have hok := hinv.callOk call hmem
    rcases hphase with hphase | hphase <;>
    · simp only [CallOk, hphase] at hok
      exact ⟨hok.1, hok.2.1⟩
  · have hok := hinv.callOk call hmem
    simp only [CallOk, hphase] at hok
    exact hok.1

/-- A publication and a subscription are added at a time; the driver replies in the other
order, and refuses the subscription. -/
def twoCalls : List Action :=
  [.call .publication "aeron:ipc" 1, .call .subscription "aeron:ipc" 1, .register 1 none,
    .register 0 none, .lookup 0, .reply 1 true, .lookup 0, .reply 0 false, .lookup 1]

theorem waits_never_cross_twoCalls :
    ∃ s call, StepMachine.run step init twoCalls = some s ∧ s.calls[0]? = some call ∧
      call.phase = .returned 1 (some 1) ∧ Obtained twoCalls 0 1 ∧
      Registered s call 1 Status.Found := by
  obtain ⟨hids, hcalls, -⟩ :=
    waits_never_cross (show StepMachine.run step init twoCalls = some _ from rfl)
  exact ⟨_, _, rfl, rfl, rfl, (hids 0 _ rfl 1).mp rfl,
    (hcalls _ List.mem_cons_self 1 (some 1) (Or.inl rfl)).2⟩

end Client

end AeronPy
