import AeronPy.Lib.StepMachine
import AeronPy.Publication
import Mathlib.Data.List.Basic
import Mathlib.Logic.Function.Basic

/-!
# Adding resources to a client

`context::add_subscription`, `add_publication` and `add_exclusive_publication` register a
resource with the Aeron client and then look it up by the id they got until the lookup no
longer gives null. They run with the GIL released, so any number of such calls interleave with
each other, with the client's processing of the driver's replies, and with what the program
does to the proxies that were returned.

* `AddCall`: the three methods, as what they add and what they look up;
* `State`, `Action`, `step`: the client, the calls and the proxies;
* `find`: a lookup. It gives null while the registration is pending, the resource once it is
  ready, and throws when it was refused.
-/

namespace AeronPy

namespace Client

/-! ## Registrations -/

/-- The kinds of resources. -/
inductive Kind where
  | subscription | publication | exclusivePublication
deriving DecidableEq, Repr

/-- A registration waits for the driver's reply, and is released with the last proxy. -/
inductive Status where
  | pending | ready | refused | released
deriving DecidableEq, Repr

/-- A registration, with the closed flag of its one resource. -/
structure Registration where
  kind : Kind
  channel : String
  streamId : Int32
  status : Status
  closed : Bool
deriving DecidableEq, Repr

/-! ## Calls -/

/-- What a method adds, and what it then looks up under the id that it got. -/
structure AddCall where
  adds : Kind
  finds : Kind
  channel : String
  streamId : Int32
deriving DecidableEq, Repr

/-- `context::add_subscription`. -/
def addSubscription (channel : String) (streamId : Int32) : AddCall where
  adds := .subscription
  finds := .subscription
  channel
  streamId

/-- `context::add_publication`. -/
def addPublication (channel : String) (streamId : Int32) : AddCall where
  adds := .publication
  finds := .publication
  channel
  streamId

/-- `context::add_exclusive_publication`. -/
def addExclusivePublication (channel : String) (streamId : Int32) : AddCall where
  adds := .exclusivePublication
  finds := .exclusivePublication
  channel
  streamId

/-- The method for a kind of resource. -/
def addCall : Kind → String → Int32 → AddCall
  | .subscription => addSubscription
  | .publication => addPublication
  | .exclusivePublication => addExclusivePublication

/-- A shared pointer to a resource, which its registration id identifies, or null. -/
abbrev SharedPtr := Option ℕ

/-- How far a call is, with the id that it got. -/
inductive Phase where
  | started
  | waiting (id : ℕ)
  | returned (id : ℕ) (resource : SharedPtr)
  | raised (id : ℕ)
  /-- It returned, and the program dropped the proxy. -/
  | dropped (id : ℕ) (resource : SharedPtr)
deriving DecidableEq, Repr

/-- The outcome of a lookup. -/
abbrev Lookup := Except PyError SharedPtr

/-- A call of one of the methods: the resource that was asked for, what the method does, and
what its lookups gave. -/
structure Call where
  kind : Kind
  channel : String
  streamId : Int32
  body : AddCall
  phase : Phase
  lookups : List Lookup

/-- One round of `while (!resource)`: a null pointer is looked up again. -/
def Call.receive (call : Call) (id : ℕ) (lookup : Lookup) : Call :=
  { call with
    lookups := call.lookups ++ [lookup]
    phase :=
      match lookup with
      | .error _ => .raised id
      | .ok none => .waiting id
      | .ok resource => .returned id resource }

/-! ## The client -/

/-- The client of one context, and the calls made on it. -/
structure State where
  registrations : ℕ → Option Registration
  nextId : ℕ
  calls : List Call

/-- A new client. -/
def init : State := ⟨fun _ => none, 0, []⟩

/-- `findSubscription`, `findPublication` and `findExclusivePublication`. -/
def find (s : State) (kind : Kind) (id : ℕ) : Lookup :=
  match s.registrations id with
  -- an id that the client has not given yet
  | none => .ok none
  | some registration =>
    if registration.kind = kind then
      match registration.status with
      | .pending | .released => .ok none
      | .ready => .ok (some id)
      | .refused => .error (.foreign .runtimeError)
    else .ok none

/-- The steps of the calls, of the client and of the program. -/
inductive Action where
  | call (kind : Kind) (channel : String) (streamId : Int32)
  /-- The `add` of a call. A publication may get the id of an identical registration. -/
  | register (c : ℕ) (existing : Option ℕ)
  | lookup (c : ℕ)
  /-- The driver's reply to a registration. -/
  | reply (id : ℕ) (accepted : Bool)
  | offer (c : ℕ)
  /-- `close()` on the proxy that a call returned. -/
  | close (c : ℕ)
  /-- The program drops the proxy that a call returned. -/
  | drop (c : ℕ)

namespace State

/-- The registration can be shared by an `add` of this publication. -/
def Shares (s : State) (body : AddCall) (id : ℕ) : Prop :=
  body.adds = .publication ∧ ∃ registration, s.registrations id = some registration ∧
    registration.kind = .publication ∧ registration.channel = body.channel ∧
    registration.streamId = body.streamId ∧ registration.status ≠ .released

instance (s : State) (body : AddCall) (id : ℕ) : Decidable (s.Shares body id) :=
  match h : s.registrations id with
  | none => .isFalse fun ⟨_, _, hid, _⟩ => nomatch h.symm.trans hid
  | some registration =>
    decidable_of_iff (body.adds = .publication ∧ registration.kind = .publication ∧
      registration.channel = body.channel ∧ registration.streamId = body.streamId ∧
      registration.status ≠ .released) (by simp [Shares, h])

def setCall (s : State) (c : ℕ) (call : Call) : State :=
  { s with calls := s.calls.set c call }

def setRegistration (s : State) (id : ℕ) (registration : Registration) : State :=
  { s with registrations := Function.update s.registrations id (some registration) }

/-- Some call still holds the proxy of the resource that it returned. -/
def isHeld (s : State) (resource : ℕ) : Bool :=
  s.calls.any fun call =>
    match call.phase with
    | .returned _ held => held = some resource
    | _ => false

/-- The last proxy of a resource releases its registration. -/
def release (s : State) (resource : ℕ) : State :=
  if s.isHeld resource then s
  else
    match s.registrations resource with
    | none => s
    | some registration => s.setRegistration resource { registration with status := .released }

end State

/-- One step. -/
def step (s : State) : Action → Option State
  | .call kind channel streamId => some { s with
      calls := s.calls ++ [⟨kind, channel, streamId, addCall kind channel streamId, .started, []⟩] }
  | .register c existing => do
    let call ← s.calls[c]?
    guard (call.phase = .started)
    match existing with
    | some id =>
      guard (s.Shares call.body id)
      return s.setCall c { call with phase := .waiting id }
    | none =>
      -- a fresh id, bound to what was asked for
      let registration : Registration :=
        ⟨call.body.adds, call.body.channel, call.body.streamId, .pending, false⟩
      return { (s.setCall c { call with phase := .waiting s.nextId }).setRegistration s.nextId
        registration with nextId := s.nextId + 1 }
  | .lookup c => do
    let call ← s.calls[c]?
    match call.phase with
    | .waiting id => return s.setCall c (call.receive id (find s call.body.finds id))
    | _ => none
  | .reply id accepted => do
    let registration ← s.registrations id
    guard (registration.status = .pending)
    let status : Status := if accepted then .ready else .refused
    return s.setRegistration id { registration with status }
  | .offer c => do
    let call ← s.calls[c]?
    match call.phase with
    -- nothing of the client changes
    | .returned _ _ => return s
    | _ => none
  | .close c => do
    let call ← s.calls[c]?
    match call.phase with
    | .returned _ (some resource) =>
      -- `Subscription` has no `close`
      guard (call.kind ≠ .subscription)
      let registration ← s.registrations resource
      return s.setRegistration resource { registration with closed := true }
    | _ => none
  | .drop c => do
    let call ← s.calls[c]?
    match call.phase with
    | .returned id (some resource) =>
      return (s.setCall c { call with phase := .dropped id (some resource) }).release resource
    | _ => none

/-! ## What a step can do -/

section Steps

variable {s s' : State} {c id : ℕ}

theorem step_register {existing : Option ℕ} (h : step s (.register c existing) = some s') :
    ∃ call, s.calls[c]? = some call ∧ call.phase = .started ∧
      ((∃ id, existing = some id ∧ s.Shares call.body id ∧
          s' = s.setCall c { call with phase := .waiting id }) ∨
        existing = none ∧
          s' = { (s.setCall c { call with phase := .waiting s.nextId }).setRegistration s.nextId
            ⟨call.body.adds, call.body.channel, call.body.streamId, .pending, false⟩ with
            nextId := s.nextId + 1 }) := by
  obtain ⟨call, hcall, h⟩ := Option.bind_eq_some_iff.mp h
  obtain ⟨_, hphase, h⟩ := Option.bind_eq_some_iff.mp h
  refine ⟨call, hcall, (Option.guard_eq_some' _).mp hphase, ?_⟩
  cases existing with
  | some id =>
    obtain ⟨_, hshares, h⟩ := Option.bind_eq_some_iff.mp h
    exact Or.inl ⟨id, rfl, (Option.guard_eq_some' _).mp hshares, (Option.some.inj h).symm⟩
  | none => exact Or.inr ⟨rfl, (Option.some.inj h).symm⟩

theorem step_lookup_iff : step s (.lookup c) = some s' ↔
    ∃ call id, s.calls[c]? = some call ∧ call.phase = .waiting id ∧
      s' = s.setCall c (call.receive id (find s call.body.finds id)) := by
  constructor
  · intro h
    obtain ⟨call, hcall, h⟩ := Option.bind_eq_some_iff.mp h
    cases hphase : call.phase with
    | waiting id =>
      rw [hphase] at h
      exact ⟨call, id, hcall, hphase, (Option.some.inj h).symm⟩
    | _ =>
      rw [hphase] at h
      cases h
  · rintro ⟨call, id, hcall, hphase, rfl⟩
    refine Option.bind_eq_some_iff.mpr ⟨call, hcall, ?_⟩
    rw [hphase]
    rfl

theorem step_reply {accepted : Bool} (h : step s (.reply id accepted) = some s') :
    ∃ registration, s.registrations id = some registration ∧ registration.status = .pending ∧
      s' = s.setRegistration id
        { registration with status := if accepted then .ready else .refused } := by
  obtain ⟨registration, hid, h⟩ := Option.bind_eq_some_iff.mp h
  obtain ⟨_, hstatus, h⟩ := Option.bind_eq_some_iff.mp h
  exact ⟨registration, hid, (Option.guard_eq_some' _).mp hstatus, (Option.some.inj h).symm⟩

theorem step_offer (h : step s (.offer c) = some s') : s' = s := by
  obtain ⟨call, -, h⟩ := Option.bind_eq_some_iff.mp h
  cases hphase : call.phase with
  | returned id resource =>
    rw [hphase] at h
    exact (Option.some.inj h).symm
  | _ =>
    rw [hphase] at h
    cases h

theorem step_close (h : step s (.close c) = some s') :
    ∃ call id resource registration, s.calls[c]? = some call ∧
      call.phase = .returned id (some resource) ∧ s.registrations resource = some registration ∧
      s' = s.setRegistration resource { registration with closed := true } := by
  obtain ⟨call, hcall, h⟩ := Option.bind_eq_some_iff.mp h
  cases hphase : call.phase with
  | returned id held =>
    rw [hphase] at h
    cases held with
    | none => cases h
    | some resource =>
      obtain ⟨_, -, h⟩ := Option.bind_eq_some_iff.mp h
      obtain ⟨registration, hreg, h⟩ := Option.bind_eq_some_iff.mp h
      exact ⟨call, id, resource, registration, hcall, hphase, hreg, (Option.some.inj h).symm⟩
  | _ =>
    rw [hphase] at h
    cases h

theorem step_drop (h : step s (.drop c) = some s') :
    ∃ call id resource, s.calls[c]? = some call ∧ call.phase = .returned id (some resource) ∧
      s' = (s.setCall c { call with phase := .dropped id (some resource) }).release resource := by
  obtain ⟨call, hcall, h⟩ := Option.bind_eq_some_iff.mp h
  cases hphase : call.phase with
  | returned id held =>
    rw [hphase] at h
    cases held with
    | none => cases h
    | some resource => exact ⟨call, id, resource, hcall, hphase, (Option.some.inj h).symm⟩
  | _ =>
    rw [hphase] at h
    cases h

end Steps

/-! ## Updates -/

namespace State

theorem setRegistration_self (s : State) (id : ℕ) (registration : Registration) :
    (s.setRegistration id registration).registrations id = some registration :=
  Function.update_self ..

theorem setRegistration_of_ne (s : State) {id other : ℕ} (h : other ≠ id)
    (registration : Registration) :
    (s.setRegistration id registration).registrations other = s.registrations other :=
  Function.update_of_ne h ..

theorem mem_setCall {s : State} {c : ℕ} {call call' : Call} (h : call' ∈ (s.setCall c call).calls) :
    call' ∈ s.calls ∨ call' = call :=
  List.mem_or_eq_of_mem_set h

/-- A release leaves everything as it is but for the status of the one registration. -/
theorem release_cases (s : State) (resource : ℕ) :
    s.release resource = s ∨
      ∃ registration, s.registrations resource = some registration ∧ s.release resource =
        s.setRegistration resource { registration with status := .released } := by
  by_cases hheld : s.isHeld resource = true
  · exact Or.inl (if_pos hheld)
  · cases hreg : s.registrations resource with
    | none =>
      refine Or.inl ?_
      simp only [release, if_neg hheld, hreg]
    | some registration =>
      refine Or.inr ⟨registration, rfl, ?_⟩
      simp only [release, if_neg hheld, hreg]

end State

/-- The methods add and look up what they were asked for. -/
theorem addCall_eq (kind : Kind) (channel : String) (streamId : Int32) :
    addCall kind channel streamId = ⟨kind, kind, channel, streamId⟩ := by
  cases kind <;> rfl

/-- A lookup of the kind of a registration depends on its status. -/
theorem find_eq {s : State} {id : ℕ} {registration : Registration}
    (h : s.registrations id = some registration) :
    find s registration.kind id =
      match registration.status with
      | .pending | .released => .ok none
      | .ready => .ok (some id)
      | .refused => .error (.foreign .runtimeError) := by
  simp only [find, h, if_true]

end Client

end AeronPy
