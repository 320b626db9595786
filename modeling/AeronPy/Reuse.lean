import AeronPy.Registration

/-!
# Is an added publication usable?

`add_publication` waits for the publication "to be valid", which it takes a non-null lookup to
mean. A publication that was closed while a proxy of it is held still has its registration,
so adding the same channel and stream again returns the closed one.

`returned_usable`: in every run in which nothing is added on the channel and stream of a
publication that is closed and still held, and none is closed under a call that waits for it, a
publication is open when it is returned, and until it is closed through one of its proxies.

Of a step that does not meet the condition `waiting_of_closed_shared` and `waiting_of_closes`
show that it can leave, or leaves, a call waiting for a closed publication, and
`unusable_of_waiting` that this is then what the call returns, if it returns.
-/

namespace AeronPy

namespace Client

/-! ## The state of a publication -/

/-- `PUBLICATION_CLOSED`. -/
def publicationClosed : Int64 := -4

/-- `aeron::Publication::offer`. A closed publication does not get to the log. -/
def aeronOffer (registration : Registration) (append : Memory → AtomicBuffer → Int64)
    (memory : Memory) (buf : AtomicBuffer) : Int64 :=
  if registration.closed then publicationClosed else append memory buf

/-- `publication::is_closed` on a proxy of the resource. -/
def State.isClosed (s : State) (resource : ℕ) : Option Bool :=
  (s.registrations resource).map Registration.closed

/-- Some `publication::offer` on a proxy of the resource returns the result. What appending to
the log returns is a parameter, other than `PUBLICATION_CLOSED`. -/
def State.Offers (s : State) (resource : ℕ) (result : Int64) : Prop :=
  ∃ registration append characters memory data, s.registrations resource = some registration ∧
    (∀ memory buf, append memory buf ≠ publicationClosed) ∧
    Publication.offer (aeronOffer registration append) characters memory data = .ok result

/-- `is_closed` is `False`, and no offer returns `PUBLICATION_CLOSED`. -/
structure State.Usable (s : State) (resource : ℕ) : Prop where
  isClosed : s.isClosed resource = some false
  offers : ∀ result, s.Offers resource result → result ≠ publicationClosed

/-- The resource is registered and not closed. -/
def State.IsOpen (s : State) (resource : ℕ) : Prop :=
  ∃ registration, s.registrations resource = some registration ∧ registration.closed = false

/-- An offer that returns a result returned that of the underlying offer. -/
theorem offer_eq_ok {aeronOffer : Memory → AtomicBuffer → Int64} {characters : ℤ}
    {memory : Memory} {data : PyData} {result : Int64}
    (h : Publication.offer aeronOffer characters memory data = .ok result) :
    ∃ memory' buf, result = aeronOffer memory' buf := by
  cases data with
  | buffer info => exact ⟨_, _, (Except.ok.inj h).symm⟩
  | str s =>
    simp only [Publication.offer, offerData] at h
    cases hencode : s.encode with
    | none =>
      rw [hencode] at h
      cases h
    | some bytes =>
      rw [hencode] at h
      exact ⟨_, _, (Except.ok.inj h).symm⟩
  | other => cases h

theorem usable_of_isOpen {s : State} {resource : ℕ} (h : s.IsOpen resource) :
    s.Usable resource := by
  obtain ⟨registration, hreg, hopen⟩ := h
  refine ⟨by rw [State.isClosed, hreg, Option.map_some, hopen], ?_⟩
  rintro result ⟨registration', append, characters, memory, data, hreg', happend, hoffer⟩
  rw [hreg, Option.some_inj] at hreg'
  subst hreg'
  obtain ⟨memory', buf, rfl⟩ := offer_eq_ok hoffer
  rw [aeronOffer, hopen]
  exact happend memory' buf

/-! ## What keeps a publication open -/

/-- The action is a `close()` on a proxy of the resource. -/
def Closes (resource : ℕ) (s : State) (a : Action) : Prop :=
  ∃ c call id, a = .close c ∧ s.calls[c]? = some call ∧
    call.phase = .returned id (some resource)

theorem isOpen_iff {s : State} {resource : ℕ} :
    s.IsOpen resource ↔ s.isClosed resource = some false := by
  unfold State.IsOpen State.isClosed
  exact Option.map_eq_some_iff.symm

theorem isClosed_setRegistration {s : State} {id resource : ℕ} {registration : Registration}
    {b : Bool} (hflag : s.isClosed resource = some b)
    (h : id = resource → registration.closed = b) :
    (s.setRegistration id registration).isClosed resource = some b := by
  unfold State.isClosed
  by_cases hid : resource = id
  · subst hid
    rw [State.setRegistration_self, Option.map_some, h rfl]
  · rw [State.setRegistration_of_ne _ hid]
    exact hflag

/-- A new status leaves the flag as it is. -/
theorem isClosed_setStatus {s : State} {id resource : ℕ} {registration : Registration} {b : Bool}
    (hreg : s.registrations id = some registration) (status : Status)
    (hflag : s.isClosed resource = some b) :
    (s.setRegistration id { registration with status }).isClosed resource = some b := by
  apply isClosed_setRegistration hflag
  intro hid
  rw [← hid, State.isClosed, hreg, Option.map_some, Option.some_inj] at hflag
  exact hflag

theorem isClosed_release {s : State} {resource other : ℕ} {b : Bool}
    (hflag : s.isClosed resource = some b) : (s.release other).isClosed resource = some b := by
  rcases s.release_cases other with heq | ⟨registration, hreg, heq⟩
  · rw [heq]
    exact hflag
  · rw [heq]
    exact isClosed_setStatus hreg .released hflag

/-- The flag of a resource is set by a `close()` on one of its proxies, and never taken back. -/
theorem isClosed_step {s s' : State} {a : Action} {resource : ℕ} {b : Bool} (hinv : Inv s)
    (hflag : s.isClosed resource = some b) (hclose : b = false → ¬Closes resource s a)
    (h : step s a = some s') : s'.isClosed resource = some b := by
  cases a with
  | call kind channel streamId =>
    cases h
    exact hflag
  | register c existing =>
    obtain ⟨call, -, -, ⟨id, -, -, rfl⟩ | ⟨-, rfl⟩⟩ := step_register h
    · exact hflag
    · -- a fresh registration is another one
      obtain ⟨registration, hreg, -⟩ := Option.map_eq_some_iff.mp hflag
      have hlt : resource < s.nextId := hinv.lt resource registration hreg
      exact isClosed_setRegistration (s := s) hflag fun hid => absurd hid hlt.ne'
  | lookup c =>
    obtain ⟨call, id, -, -, rfl⟩ := step_lookup_iff.mp h
    exact hflag
  | reply id accepted =>
    obtain ⟨registration, hreg, -, rfl⟩ := step_reply h
    exact isClosed_setStatus hreg _ hflag
  | offer c =>
    rw [step_offer h]
    exact hflag
  | close c =>
    obtain ⟨call, id, other, registration, hcall, hphase, -, rfl⟩ := step_close h
    apply isClosed_setRegistration hflag
    intro hother
    subst hother
    cases b with
    | false => exact absurd ⟨c, call, id, rfl, hcall, hphase⟩ (hclose rfl)
    | true => rfl
  | drop c =>
    obtain ⟨call, id, other, -, -, rfl⟩ := step_drop h
    exact isClosed_release hflag

/-- An open resource stays open in every step that does not close it. -/
theorem isOpen_step {s s' : State} {a : Action} {resource : ℕ} (hinv : Inv s)
    (hopen : s.IsOpen resource) (hclose : ¬Closes resource s a) (h : step s a = some s') :
    s'.IsOpen resource := by
  rw [isOpen_iff] at hopen ⊢
  exact isClosed_step hinv hopen (fun _ => hclose) h

theorem isOpen_run {s t : State} {as : List Action} {resource : ℕ} (hinv : Inv s)
    (hopen : s.IsOpen resource)
    (hcloses : StepMachine.Meets step (fun u a => ¬Closes resource u a) s as)
    (h : StepMachine.run step s as = some t) : t.IsOpen resource := by
  refine StepMachine.run_invariant_of_meets_under (P := fun u => u.IsOpen resource)
    inv_of_step ?_ hcloses h hinv hopen
  intro u a u' hclose hu hopen' ha
  exact isOpen_step hu hopen' hclose ha

/-- No registration that the `add` of this channel and stream can share was closed, and none is
closed while a call waits for it. -/
def AddsOpen (s : State) : Action → Prop
  | .register c _ => ∀ call, s.calls[c]? = some call →
      ∀ id, s.Shares call.body id → s.isClosed id = some false
  | .close c => ∀ call id resource, s.calls[c]? = some call →
      call.phase = .returned id (some resource) →
      ∀ call' ∈ s.calls, call'.phase ≠ .waiting resource
  | _ => True

/-- Every resource that a call waits for is open. -/
def WaitsForOpen (s : State) : Prop :=
  ∀ call ∈ s.calls, ∀ id, call.phase = .waiting id → s.IsOpen id

theorem not_closes_of_waiting {s : State} {a : Action} {call : Call} {id : ℕ}
    (hadds : AddsOpen s a) (hmem : call ∈ s.calls) (hphase : call.phase = .waiting id) :
    ¬Closes id s a := by
  rintro ⟨c, call', id', rfl, hcall', hphase'⟩
  exact hadds call' id' id hcall' hphase' call hmem hphase

theorem waiting_receive {call : Call} {id id' : ℕ} {lookup : Lookup}
    (h : (call.receive id lookup).phase = .waiting id') : id' = id := by
  rcases lookup with e | _ | resource
  · cases h
  · exact (Phase.waiting.inj h).symm
  · cases h

/-- The calls of the next state are old ones, or wait for what is open. -/
theorem calls_step {s s' : State} {a : Action} (hadds : AddsOpen s a) (hwaits : WaitsForOpen s)
    (h : step s a = some s') {call : Call} (hmem : call ∈ s'.calls) :
    call ∈ s.calls ∨ ∀ id, call.phase = .waiting id → s'.IsOpen id := by
  cases a with
  | call kind channel streamId =>
    cases h
    rcases List.mem_append.mp hmem with hmem | hmem
    · exact Or.inl hmem
    · rw [List.mem_singleton.mp hmem]
      exact Or.inr nofun
  | register c existing =>
    obtain ⟨call', hcall', -, ⟨id', rfl, hshares, rfl⟩ | ⟨-, rfl⟩⟩ := step_register h
    · -- the shared registration is open by the condition on the step
      refine (State.mem_setCall hmem).imp_right fun heq id hphase => ?_
      rw [heq] at hphase
      cases hphase
      exact isOpen_iff.mpr (hadds call' hcall' id' hshares)
    · refine (State.mem_setCall (s := s) hmem).imp_right fun heq id hphase => ?_
      rw [heq] at hphase
      cases hphase
      exact ⟨_, State.setRegistration_self _ _ _, rfl⟩
  | lookup c =>
    obtain ⟨call', id', hcall', hphase', rfl⟩ := step_lookup_iff.mp h
    -- a call that waits on waits for the same id as before
    refine (State.mem_setCall hmem).imp_right fun heq id hphase => ?_
    rw [heq] at hphase
    exact waiting_receive hphase ▸ hwaits call' (List.mem_of_getElem? hcall') id' hphase'
  | reply id accepted =>
    obtain ⟨registration, -, -, rfl⟩ := step_reply h
    exact Or.inl hmem
  | offer c =>
    rw [step_offer h] at hmem
    exact Or.inl hmem
  | close c =>
    obtain ⟨call', id, resource, registration, -, -, -, rfl⟩ := step_close h
    exact Or.inl hmem
  | drop c =>
    obtain ⟨call', id', resource, -, -, rfl⟩ := step_drop h
    rw [calls_release] at hmem
    refine (State.mem_setCall hmem).imp_right fun heq id hphase => ?_
    rw [heq] at hphase
    cases hphase

theorem waitsForOpen_step {s s' : State} {a : Action} (hinv : Inv s) (hadds : AddsOpen s a)
    (hwaits : WaitsForOpen s) (h : step s a = some s') : WaitsForOpen s' := by
  intro call hmem id hphase
  rcases calls_step hadds hwaits h hmem with hold | hopen
  · have hclose := not_closes_of_waiting hadds hold hphase
    exact isOpen_step hinv (hwaits call hold id hphase) hclose h
  · exact hopen id hphase

theorem waitsForOpen_run {s : State} {as : List Action}
    (hadds : StepMachine.Meets step AddsOpen init as)
    (h : StepMachine.run step init as = some s) : WaitsForOpen s := by
  refine StepMachine.run_invariant_of_meets_under inv_of_step ?_ hadds h inv_init nofun
  intro u a u' hadd hu hwaits ha
  exact waitsForOpen_step hu hadd hwaits ha

/-! ## Added publications -/

/-- A lookup that returns a resource returns one that the call was waiting for. -/
theorem isOpen_of_lookup {s s' : State} {c id resource : ℕ} {call : Call} (hinv : Inv s)
    (hwaits : WaitsForOpen s) (h : step s (.lookup c) = some s')
    (hcall : s'.calls[c]? = some call) (hphase : call.phase = .returned id (some resource)) :
    s'.IsOpen resource := by
  obtain ⟨call', id', hcall', hphase', rfl⟩ := step_lookup_iff.mp h
  obtain ⟨registration, s₁, call₁, -, hstep, hcall₁, hnext⟩ :=
    lookup_of_waiting hinv hcall' hphase'
  -- the call after the lookup is the one that the status of its registration decides
  rw [h, Option.some_inj] at hstep
  subst hstep
  rw [hcall, Option.some_inj] at hcall₁
  subst hcall₁
  rw [hphase] at hnext
  cases hstatus : registration.status with
  | ready =>
    rw [hstatus] at hnext
    cases hnext
    exact hwaits call' (List.mem_of_getElem? hcall') _ hphase'
  | _ =>
    rw [hstatus] at hnext
    cases hnext

/-- In a run in which nothing is added on the channel and stream of a closed publication that is
still held, and none is closed under a call that waits for it, what a call returns is usable when
it returns, and at the end of every continuation in which nobody closes it. -/
theorem returned_usable {as bs : List Action} {c id resource : ℕ} {s s' t : State} {call : Call}
    (hadds : StepMachine.Meets step AddsOpen init (as ++ .lookup c :: bs))
    (hs : StepMachine.run step init as = some s) (hlookup : step s (.lookup c) = some s')
    (hcall : s'.calls[c]? = some call) (hphase : call.phase = .returned id (some resource))
    (ht : StepMachine.run step s' bs = some t)
    (hcloses : StepMachine.Meets step (fun u a => ¬Closes resource u a) s' bs) :
    s'.Usable resource ∧ t.Usable resource := by
  obtain ⟨hbefore, -⟩ := (StepMachine.meets_append hs).mp hadds
  have hinv := inv_run hs
  have hopen := isOpen_of_lookup hinv (waitsForOpen_run hbefore hs) hlookup hcall hphase
  have hopen' := isOpen_run (inv_step hinv hlookup).1 hopen hcloses ht
  exact ⟨usable_of_isOpen hopen, usable_of_isOpen hopen'⟩

/-- Only the registrations that there are need to be looked at. -/
theorem addsOpen_register {s : State} {c : ℕ} {call : Call} (hinv : Inv s)
    (hcall : s.calls[c]? = some call)
    (h : ∀ id < s.nextId, s.Shares call.body id → s.isClosed id = some false)
    (existing : Option ℕ) : AddsOpen s (.register c existing) := by
  intro call' hcall' id hshares
  rw [hcall, Option.some_inj] at hcall'
  subst hcall'
  obtain ⟨registration, hreg, -⟩ := hshares.2
  exact h id (hinv.lt id registration hreg) hshares

/-- Any publication can be closed while no call waits. -/
theorem addsOpen_close {s : State} (hinv : Inv s)
    (h : ∀ call ∈ s.calls, ∀ id < s.nextId, call.phase ≠ .waiting id) (c : ℕ) :
    AddsOpen s (.close c) := by
  intro call id resource _ _ call' hmem hphase
  have hok := hinv.callOk call' hmem
  simp only [CallOk, hphase] at hok
  obtain ⟨registration, hreg, -⟩ := hok.1
  exact h call' hmem resource (hinv.lt resource registration hreg) hphase

/-- A publication is added, and the driver replies. -/
def added : List Action := [.call .publication "aeron:ipc" 1, .register 0 none, .reply 0 true]

/-- A publication of another stream is added and closed; then the first stream is added again,
and shares its registration. -/
def addedAgain : List Action :=
  added ++ [.lookup 0, .call .publication "aeron:ipc" 2, .register 1 none, .reply 1 true,
    .lookup 1, .close 1, .call .publication "aeron:ipc" 1, .register 2 (some 0)]

/-- The publication is usable when the second call returns it, and when the first proxy has been
dropped. -/
theorem returned_usable_again :
    ∃ s' t, StepMachine.run step init (addedAgain ++ [.lookup 2]) = some s' ∧ s'.Usable 0 ∧
      StepMachine.run step s' [.drop 0, .offer 2] = some t ∧ t.Usable 0 := by
  have hinv : ∀ n s, StepMachine.run step init (addedAgain.take n) = some s → Inv s :=
    fun n s => inv_run
  have hadds : StepMachine.Meets step AddsOpen init
      (addedAgain ++ [.lookup 2, .drop 0, .offer 2]) := by
    apply StepMachine.meets_cons_of_step rfl trivial
    apply StepMachine.meets_cons_of_step rfl
      (addsOpen_register (hinv 1 _ rfl) rfl (by decide) none)
    apply StepMachine.meets_cons_of_step rfl trivial
    apply StepMachine.meets_cons_of_step rfl trivial
    apply StepMachine.meets_cons_of_step rfl trivial
    apply StepMachine.meets_cons_of_step rfl
      (addsOpen_register (hinv 5 _ rfl) rfl (by decide) none)
    apply StepMachine.meets_cons_of_step rfl trivial
    apply StepMachine.meets_cons_of_step rfl trivial
    apply StepMachine.meets_cons_of_step rfl
      (addsOpen_close (hinv 8 _ rfl) (by decide) 1)
    apply StepMachine.meets_cons_of_step rfl trivial
    apply StepMachine.meets_cons_of_step rfl
      (addsOpen_register (hinv 10 _ rfl) rfl (by decide) (some 0))
    exact ⟨trivial, fun _ _ => ⟨trivial, fun _ _ => ⟨trivial, fun _ _ => trivial⟩⟩⟩
  have hcloses : ∀ s, StepMachine.Meets step (fun u a => ¬Closes 0 u a) s [.drop 0, .offer 2] := by
    intro s
    refine ⟨?_, fun _ _ => ⟨?_, fun _ _ => trivial⟩⟩
    · rintro ⟨_, _, _, ha, _⟩
      cases ha
    · rintro ⟨_, _, _, ha, _⟩
      cases ha
  have husable := returned_usable (c := 2) hadds rfl rfl rfl rfl rfl (hcloses _)
  exact ⟨_, _, rfl, husable.1, rfl, husable.2⟩

/-- The publication is closed and added again: the second call returns it closed. -/
theorem closed_publication_returned :
    ∃ t, StepMachine.run step init (added ++ [.lookup 0, .close 0,
        .call .publication "aeron:ipc" 1, .register 1 (some 0), .lookup 1]) = some t ∧
      (t.calls[1]?).map Call.phase = some (.returned 0 (some 0)) ∧
      t.isClosed 0 = some true ∧ ¬t.Usable 0 := by
  refine ⟨_, rfl, rfl, rfl, fun husable => ?_⟩
  cases husable.isClosed

/-! ## A closed publication under a call -/

/-- An `add` that can share a closed registration can leave its call waiting for it. -/
theorem waiting_of_closed_shared {s s' : State} {c : ℕ} {existing : Option ℕ}
    (hadds : ¬AddsOpen s (.register c existing)) (h : step s (.register c existing) = some s') :
    ∃ id t call, step s (.register c (some id)) = some t ∧ t.calls[c]? = some call ∧
      call.phase = .waiting id ∧ t.isClosed id = some true := by
  simp only [AddsOpen, not_forall] at hadds
  obtain ⟨call, hcall, id, hshares, hnot⟩ := hadds
  obtain ⟨call', hcall', hphase, -⟩ := step_register h
  rw [hcall, Option.some_inj] at hcall'
  subst hcall'
  obtain ⟨registration, hreg, -⟩ := hshares.2
  have hflag : s.isClosed id = some registration.closed := by
    rw [State.isClosed, hreg, Option.map_some]
  have hclosed : registration.closed = true := by
    rw [hflag, Option.some_inj] at hnot
    exact Bool.eq_true_of_not_eq_false hnot
  have hself := List.getElem?_set_self (a := { call with phase := .waiting id })
    (List.getElem?_eq_some_iff.mp hcall).1
  have hstep : step s (.register c (some id)) =
      some (s.setCall c { call with phase := .waiting id }) := by
    simp [step, hcall, hphase, hshares, guard]
  exact ⟨id, _, _, hstep, hself, rfl, hflag.trans (congrArg some hclosed)⟩

/-- A `close()` under a waiting call leaves it waiting for a closed resource. -/
theorem waiting_of_closes {s s' : State} {c : ℕ} (hadds : ¬AddsOpen s (.close c))
    (h : step s (.close c) = some s') :
    ∃ (c' : ℕ) (call : Call) (id : ℕ), s'.calls[c']? = some call ∧ call.phase = .waiting id ∧
      s'.isClosed id = some true := by
  obtain ⟨call, id, resource, registration, hcall, hphase, hreg, rfl⟩ := step_close h
  simp only [AddsOpen, not_forall, not_not] at hadds
  obtain ⟨call', id', resource', hcall', hphase', waiter, hmem, hwaiting⟩ := hadds
  rw [hcall, Option.some_inj] at hcall'
  subst hcall'
  rw [hphase] at hphase'
  cases hphase'
  obtain ⟨c', hc'⟩ := List.getElem?_of_mem hmem
  refine ⟨c', waiter, resource, hc', hwaiting, ?_⟩
  rw [State.isClosed, State.setRegistration_self]
  rfl

/-- What such a call returns, if it ever does, is closed. -/
theorem unusable_of_waiting {s t : State} {bs : List Action} {c id id' resource : ℕ}
    {call call' : Call} (hinv : Inv s) (hcall : s.calls[c]? = some call)
    (hphase : call.phase = .waiting id) (hclosed : s.isClosed id = some true)
    (ht : StepMachine.run step s bs = some t) (hcall' : t.calls[c]? = some call')
    (hphase' : call'.phase = .returned id' (some resource)) :
    t.isClosed resource = some true ∧ ¬t.Usable resource := by
  have hinv' : Inv t := StepMachine.run_invariant inv_of_step ht hinv
  have hflag : t.isClosed id = some true := by
    refine StepMachine.run_invariant_under (P := fun u => u.isClosed id = some true)
      inv_of_step ?_ ht hinv hclosed
    intro u a u' hu hflag ha
    exact isClosed_step hu hflag nofun ha
  have hcalls : ∃ call, t.calls[c]? = some call ∧ call.phase.id? = some id := by
    refine StepMachine.run_invariant
      (I := fun u => ∃ call, u.calls[c]? = some call ∧ call.phase.id? = some id) ?_ ht
      ⟨call, hcall, by rw [hphase]; rfl⟩
    intro u a u' hu ha
    obtain ⟨call, hcall, hid⟩ := hu
    exact id_step hcall hid ha
  obtain ⟨call'', hcall'', hid''⟩ := hcalls
  rw [hcall', Option.some_inj] at hcall''
  subst hcall''
  -- the resource is the one of the id that the call waited for
  have hok := hinv'.callOk call' (List.mem_of_getElem? hcall')
  rw [hphase'] at hid''
  simp only [CallOk, hphase'] at hok
  have hresource : resource = id := (Option.some.inj hok.1).trans (Option.some.inj hid'')
  rw [hresource]
  refine ⟨hflag, fun husable => ?_⟩
  rw [husable.isClosed] at hflag
  cases hflag

end Client

end AeronPy
