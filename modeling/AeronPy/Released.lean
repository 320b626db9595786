import AeronPy.Reuse

/-!
# Waiting for a released registration

A publication that is added while an identical one is held shares its registration, which is
released with the last proxy that is held. A call that still waits by then looks up null from
there on, and `while (!publication)` does not end.

* `released_iff`: a registration is released iff a proxy of it was dropped and none is held;
* `call_can_finish_iff`: a waiting call can return or raise iff its registration is not
  released, and only an `add_publication` that shares a registration can be left waiting.
-/

namespace AeronPy

namespace Client

open StepMachine (Reaches)

variable {s s' : State} {c id : ℕ} {call : Call}

/-- Some call is in the phase. -/
def State.Has (s : State) (phase : Phase) : Prop :=
  ∃ (c : ℕ) (call : Call), s.calls[c]? = some call ∧ call.phase = phase

/-- A proxy of the registration is held. -/
def State.IsHeld (s : State) (id : ℕ) : Prop := s.Has (.returned id (some id))

/-- A proxy of the registration was dropped. -/
def State.WasDropped (s : State) (id : ℕ) : Prop := s.Has (.dropped id (some id))

/-- One call moves, from a phase that is another one. -/
theorem has_setCall {call' : Call} {phase : Phase} (hcall : s.calls[c]? = some call)
    (hphase : call.phase ≠ phase) :
    (s.setCall c call').Has phase ↔ call'.phase = phase ∨ s.Has phase := by
  have hself : (s.setCall c call').calls[c]? = some call' :=
    List.getElem?_set_self (List.getElem?_eq_some_iff.mp hcall).1
  have hother : ∀ c', c' ≠ c → (s.setCall c call').calls[c']? = s.calls[c']? :=
    fun c' hc => List.getElem?_set_ne (Ne.symm hc)
  constructor
  · rintro ⟨c', call'', hc', hphase'⟩
    by_cases hc : c' = c
    · subst hc
      rw [hself, Option.some_inj] at hc'
      exact Or.inl (hc' ▸ hphase')
    · rw [hother c' hc] at hc'
      exact Or.inr ⟨c', call'', hc', hphase'⟩
  · rintro (hphase' | ⟨c', call'', hc', hphase'⟩)
    · exact ⟨c, call', hself, hphase'⟩
    · have hc : c' ≠ c := by
        rintro rfl
        rw [hcall, Option.some_inj] at hc'
        subst hc'
        exact hphase hphase'
      exact ⟨c', call'', (hother c' hc).trans hc', hphase'⟩

/-- The registration of a call that has an id. -/
theorem registered_of_id (h : CallOk s call) (hid : call.phase.id? = some id) :
    Registered s call id fun _ => True := by
  have hforget : ∀ {status : Status → Prop} {id' : ℕ}, Registered s call id' status →
      Registered s call id' fun _ => True := by
    rintro status id' ⟨registration, hreg, hkind, hchannel, hstream, -⟩
    exact ⟨registration, hreg, hkind, hchannel, hstream, trivial⟩
  unfold CallOk at h
  cases hphase : call.phase with
  | started =>
    rw [hphase] at hid
    cases hid
  | waiting id' =>
    rw [hphase] at h hid
    cases hid
    exact h.1
  | returned id' resource =>
    rw [hphase] at h hid
    cases hid
    exact hforget h.2.1
  | raised id' =>
    rw [hphase] at h hid
    cases hid
    exact hforget h.1
  | dropped id' resource =>
    rw [hphase] at h hid
    cases hid
    exact hforget h.2.1

theorem lt_nextId_of_has (hinv : Inv s) {phase : Phase} (h : s.Has phase)
    (hid : phase.id? = some id) : id < s.nextId := by
  obtain ⟨c, call, hcall, hphase⟩ := h
  rw [← hphase] at hid
  have hok := hinv.callOk call (List.mem_of_getElem? hcall)
  obtain ⟨registration, hreg, -⟩ := registered_of_id hok hid
  exact hinv.lt id registration hreg

/-! ## Releases -/

/-- The registrations that are released are those whose proxies have all been dropped. -/
def ReleasedOk (s : State) : Prop :=
  ∀ id registration, s.registrations id = some registration →
    (registration.status = .released ↔ s.WasDropped id ∧ ¬s.IsHeld id)

/-- The same calls hold and dropped proxies, and the statuses are as they were. -/
theorem releasedOk_congr (h : ReleasedOk s)
    (hdropped : ∀ id, s'.WasDropped id ↔ s.WasDropped id)
    (hheld : ∀ id, s'.IsHeld id ↔ s.IsHeld id)
    (hstatus : ∀ id registration', s'.registrations id = some registration' →
      ∃ registration, s.registrations id = some registration ∧
        (registration'.status = .released ↔ registration.status = .released)) :
    ReleasedOk s' := by
  intro id registration' hreg'
  obtain ⟨registration, hreg, hsame⟩ := hstatus id registration' hreg'
  rw [hdropped, hheld, hsame]
  exact h id registration hreg

/-- A registration is updated, and released now iff it was. -/
theorem releasedOk_setRegistration (h : ReleasedOk s) {registration new : Registration}
    (hreg : s.registrations id = some registration)
    (hsame : new.status = .released ↔ registration.status = .released) :
    ReleasedOk (s.setRegistration id new) := by
  refine releasedOk_congr h (fun _ => Iff.rfl) (fun _ => Iff.rfl) ?_
  intro other registration' hother
  by_cases hid : other = id
  · rw [hid, State.setRegistration_self, Option.some_inj] at hother
    exact ⟨registration, hid ▸ hreg, hother ▸ hsame⟩
  · rw [State.setRegistration_of_ne _ hid] at hother
    exact ⟨registration', hother, Iff.rfl⟩

/-- The program holds a proxy of the resource iff a call still has it. -/
theorem isHeld_iff (hinv : Inv s) (resource : ℕ) :
    s.isHeld resource = true ↔ s.IsHeld resource := by
  unfold State.isHeld
  rw [List.any_eq_true]
  constructor
  · rintro ⟨call, hmem, hheld⟩
    obtain ⟨c, hcall⟩ := List.getElem?_of_mem hmem
    refine ⟨c, call, hcall, ?_⟩
    have hok := hinv.callOk call hmem
    unfold CallOk at hok
    cases hphase : call.phase with
    | returned id held =>
      rw [hphase] at hheld hok
      have hresource := of_decide_eq_true hheld
      -- what a call returns is the resource of its own id
      rw [hok.1, Option.some_inj] at hresource
      rw [hok.1, hresource]
    | _ =>
      rw [hphase] at hheld
      cases hheld
  · rintro ⟨c, call, hcall, hphase⟩
    refine ⟨call, List.mem_of_getElem? hcall, ?_⟩
    rw [hphase]
    exact decide_eq_true rfl

theorem releasedOk_register (hinv : Inv s) (h : ReleasedOk s) {existing : Option ℕ}
    (hstep : step s (.register c existing) = some s') : ReleasedOk s' := by
  obtain ⟨call, hcall, hstarted, hregister⟩ := step_register hstep
  -- the call neither held a proxy nor does
  have hphases : ∀ id' phase,
      (∃ id, phase = .returned id (some id) ∨ phase = .dropped id (some id)) →
      ((s.setCall c { call with phase := .waiting id' }).Has phase ↔ s.Has phase) := by
    rintro id' phase ⟨id, hphase⟩
    have hne : call.phase ≠ phase := by
      rw [hstarted]
      rcases hphase with rfl | rfl <;> nofun
    rw [has_setCall hcall hne]
    apply or_iff_right
    rcases hphase with rfl | rfl <;> nofun
  rcases hregister with ⟨id', -, -, rfl⟩ | ⟨-, rfl⟩
  · exact releasedOk_congr h (fun id => hphases id' _ ⟨id, Or.inr rfl⟩)
      (fun id => hphases id' _ ⟨id, Or.inl rfl⟩)
      fun id registration hreg => ⟨registration, hreg, Iff.rfl⟩
  · have hdropped := fun id => hphases s.nextId _ ⟨id, Or.inr rfl⟩
    have hheld := fun id => hphases s.nextId _ ⟨id, Or.inl rfl⟩
    intro id registration hreg
    change (registration.status = .released ↔
      (s.setCall c { call with phase := .waiting s.nextId }).WasDropped id ∧
        ¬(s.setCall c { call with phase := .waiting s.nextId }).IsHeld id)
    rw [State.WasDropped, State.IsHeld, hdropped, hheld]
    by_cases hid : id = s.nextId
    · -- nobody can have had a proxy of a fresh registration
      subst hid
      have hfresh := (State.setRegistration_self
        (s.setCall c { call with phase := .waiting s.nextId }) s.nextId _).symm.trans hreg
      cases hfresh
      refine iff_of_false nofun fun hwas => ?_
      exact lt_irrefl _ (lt_nextId_of_has hinv hwas.1 rfl)
    · have hold := (State.setRegistration_of_ne
        (s.setCall c { call with phase := .waiting s.nextId }) hid _).symm.trans hreg
      exact h id registration hold

theorem releasedOk_lookup (hinv : Inv s) (h : ReleasedOk s)
    (hstep : step s (.lookup c) = some s') : ReleasedOk s' := by
  obtain ⟨call, id, hcall, hphase, rfl⟩ := step_lookup_iff.mp hstep
  have hmem := List.mem_of_getElem? hcall
  have hok := hinv.callOk call hmem
  simp only [CallOk, hphase] at hok
  obtain ⟨registration, hreg, -, hfind⟩ := find_of_registered (hinv.body call hmem) hok.1
  generalize hlookup : find s call.body.finds id = lookup at hfind
  have hdropped : ∀ id', (s.setCall c (call.receive id lookup)).WasDropped id' ↔
      s.WasDropped id' := by
    intro id'
    apply (has_setCall hcall (by simp [hphase])).trans
    apply or_iff_right
    rcases lookup with e | _ | resource <;> simp [Call.receive]
  have hheld : ∀ id', (s.setCall c (call.receive id lookup)).IsHeld id' ↔
      (call.receive id lookup).phase = .returned id' (some id') ∨ s.IsHeld id' := by
    intro id'
    exact has_setCall hcall (by simp [hphase])
  intro id' registration' hreg'
  rw [hdropped, hheld]
  by_cases hreturned : (call.receive id lookup).phase = .returned id' (some id')
  · -- the registration of the proxy that is returned is ready
    have hready : id' = id ∧ registration.status = .ready := by
      rw [hfind] at hreturned
      cases hstatus : registration.status with
      | ready =>
        rw [hstatus] at hreturned
        cases hreturned
        exact ⟨rfl, rfl⟩
      | _ =>
        rw [hstatus] at hreturned
        cases hreturned
    obtain ⟨rfl, hready⟩ := hready
    have hsame : registration' = registration := Option.some.inj (hreg'.symm.trans hreg)
    rw [hsame, hready]
    refine iff_of_false (by simp) fun hwas => ?_
    exact hwas.2 (Or.inl hreturned)
  · rw [or_iff_right hreturned]
    exact h id' registration' hreg'

theorem releasedOk_drop (hinv : Inv s) (h : ReleasedOk s)
    (hstep : step s (.drop c) = some s') : ReleasedOk s' := by
  obtain ⟨call, id, resource, hcall, hphase, rfl⟩ := step_drop hstep
  have hmem := List.mem_of_getElem? hcall
  have hok := hinv.callOk call hmem
  simp only [CallOk, hphase] at hok
  obtain ⟨hresource, hregistered, hlookups⟩ := hok
  obtain rfl := Option.some.inj hresource
  let s₁ := s.setCall c { call with phase := .dropped resource (some resource) }
  have hinv₁ : Inv s₁ := inv_setCall hinv (hinv.body call hmem) ⟨rfl, hregistered, hlookups⟩
  -- the proxy is among the dropped ones, and no longer among those held
  have hdropped : ∀ id, s₁.WasDropped id ↔ resource = id ∨ s.WasDropped id := by
    intro id
    apply (has_setCall hcall (by simp [hphase])).trans
    apply or_congr_left
    constructor
    · intro heq
      cases heq
      rfl
    · rintro rfl
      rfl
  have hheld : ∀ id, id ≠ resource → (s₁.IsHeld id ↔ s.IsHeld id) := by
    intro id hid
    apply (has_setCall hcall _).trans
    · exact or_iff_right (by simp)
    · rw [hphase]
      intro heq
      cases heq
      exact hid rfl
  obtain ⟨registration, hreg, -⟩ := hregistered
  have hnot : registration.status ≠ .released := by
    intro hreleased
    exact ((h resource registration hreg).mp hreleased).2 ⟨c, call, hcall, hphase⟩
  intro id registration' hreg'
  have hcalls : ∀ phase, (s₁.release resource).Has phase ↔ s₁.Has phase := by
    intro phase
    unfold State.Has
    rw [calls_release]
  change registration'.status = .released ↔
    (s₁.release resource).Has _ ∧ ¬(s₁.release resource).Has _
  rw [hcalls, hcalls]
  change (s₁.release resource).registrations id = some registration' at hreg'
  change registration'.status = .released ↔ s₁.WasDropped id ∧ ¬s₁.IsHeld id
  by_cases hany : s₁.isHeld resource = true
  · -- another proxy is still held
    have hheld' := (isHeld_iff hinv₁ resource).mp hany
    rw [State.release, if_pos hany] at hreg'
    by_cases hid : id = resource
    · subst hid
      have hsame : registration' = registration := Option.some.inj (hreg'.symm.trans hreg)
      rw [hsame]
      exact iff_of_false hnot fun hwas => hwas.2 hheld'
    · rw [hdropped, hheld id hid, or_iff_right (Ne.symm hid)]
      exact h id registration' hreg'
  · have hnone : ¬s₁.IsHeld resource := by
      intro hheld'
      exact hany ((isHeld_iff hinv₁ resource).mpr hheld')
    have hrelease : s₁.release resource =
        s₁.setRegistration resource { registration with status := .released } := by
      have hreg₁ : s₁.registrations resource = some registration := hreg
      rw [State.release, if_neg hany]
      simp only [hreg₁]
    rw [hrelease] at hreg'
    by_cases hid : id = resource
    · subst hid
      rw [State.setRegistration_self, Option.some_inj] at hreg'
      rw [← hreg']
      exact iff_of_true rfl ⟨(hdropped id).mpr (Or.inl rfl), hnone⟩
    · rw [State.setRegistration_of_ne _ hid] at hreg'
      rw [hdropped, hheld id hid, or_iff_right (Ne.symm hid)]
      exact h id registration' hreg'

theorem releasedOk_step {a : Action} (hinv : Inv s) (h : ReleasedOk s)
    (hstep : step s a = some s') : ReleasedOk s' := by
  cases a with
  | call kind channel streamId =>
    cases hstep
    have hphases : ∀ phase, phase ≠ .started → (State.Has { s with calls := s.calls ++
        [⟨kind, channel, streamId, addCall kind channel streamId, .started, []⟩] } phase ↔
          s.Has phase) := by
      intro phase hphase
      constructor
      · rintro ⟨c, call, hcall, rfl⟩
        by_cases hc : c < s.calls.length
        · exact ⟨c, call, (List.getElem?_append_left hc).symm.trans hcall, rfl⟩
        · -- the new call
          have hnew := (List.getElem?_append_right (not_lt.mp hc)).symm.trans hcall
          have hmem := List.mem_of_getElem? hnew
          rw [List.mem_singleton.mp hmem] at hphase
          exact absurd rfl hphase
      · rintro ⟨c, call, hcall, rfl⟩
        have hc := (List.getElem?_eq_some_iff.mp hcall).1
        exact ⟨c, call, (List.getElem?_append_left hc).trans hcall, rfl⟩
    exact releasedOk_congr h (fun id => hphases _ nofun) (fun id => hphases _ nofun)
      fun id registration hreg => ⟨registration, hreg, Iff.rfl⟩
  | register c existing => exact releasedOk_register hinv h hstep
  | lookup c => exact releasedOk_lookup hinv h hstep
  | reply id accepted =>
    obtain ⟨registration, hreg, hpending, rfl⟩ := step_reply hstep
    apply releasedOk_setRegistration h hreg
    rw [hpending]
    cases accepted <;> simp
  | offer c =>
    rw [step_offer hstep]
    exact h
  | close c =>
    obtain ⟨call, id, resource, registration, -, -, hreg, rfl⟩ := step_close hstep
    exact releasedOk_setRegistration h hreg Iff.rfl
  | drop c => exact releasedOk_drop hinv h hstep

theorem releasedOk_run {as : List Action} (h : StepMachine.run step init as = some s) :
    ReleasedOk s := by
  refine StepMachine.run_invariant_under inv_of_step ?_ h inv_init nofun
  intro u a u' hu hok ha
  exact releasedOk_step hu hok ha

/-- **Releases.** After every run, a registration is released exactly if a proxy of it was
dropped and none is held any more; one of which a proxy is held is ready. -/
theorem released_iff {as : List Action} {registration : Registration}
    (h : StepMachine.run step init as = some s)
    (hreg : s.registrations id = some registration) :
    (registration.status = .released ↔ s.WasDropped id ∧ ¬s.IsHeld id) ∧
      (s.IsHeld id → registration.status = .ready) := by
  have hiff := releasedOk_run h id registration hreg
  refine ⟨hiff, ?_⟩
  rintro ⟨c, call, hcall, hphase⟩
  have hok := (inv_run h).callOk call (List.mem_of_getElem? hcall)
  simp only [CallOk, hphase] at hok
  obtain ⟨-, ⟨registration', hreg', -, -, -, hfound⟩, -⟩ := hok
  rw [hreg, Option.some_inj] at hreg'
  subst hreg'
  rcases hfound with hready | hreleased
  · exact hready
  · exact absurd ⟨c, call, hcall, hphase⟩ (hiff.mp hreleased).2

theorem released_iff_dropped :
    ∃ s, StepMachine.run step init (added ++ [.lookup 0, .drop 0]) = some s ∧
      s.WasDropped 0 ∧ ¬s.IsHeld 0 := by
  have hrun : StepMachine.run step init (added ++ [.lookup 0, .drop 0]) = some _ := rfl
  exact ⟨_, hrun, (released_iff hrun rfl).1.mp rfl⟩

/-! ## Shared ids -/

/-- Calls that have the same id added publications. -/
def SharedOk (s : State) : Prop :=
  ∀ (c c' : ℕ) (call call' : Call) (id : ℕ), s.calls[c]? = some call →
    s.calls[c']? = some call' → c ≠ c' → call.phase.id? = some id → call'.phase.id? = some id →
    call.kind = .publication ∧ call'.kind = .publication

/-- A call moves and keeps its kind, with its old id or with one that others may share. -/
theorem sharedOk_setCall (h : SharedOk s) {call' : Call} (hcall : s.calls[c]? = some call)
    (hkind : call'.kind = call.kind)
    (hid : ∀ id, call'.phase.id? = some id → call.phase.id? = some id ∨
      ∀ other ∈ s.calls, other.phase.id? = some id →
        call.kind = .publication ∧ other.kind = .publication) :
    SharedOk (s.setCall c call') := by
  have hself : (s.setCall c call').calls[c]? = some call' :=
    List.getElem?_set_self (List.getElem?_eq_some_iff.mp hcall).1
  have hother : ∀ d, d ≠ c → (s.setCall c call').calls[d]? = s.calls[d]? :=
    fun d hd => List.getElem?_set_ne (Ne.symm hd)
  -- the call that moved, against another one
  have hmoved : ∀ d other id, s.calls[d]? = some other → d ≠ c → call'.phase.id? = some id →
      other.phase.id? = some id → call'.kind = .publication ∧ other.kind = .publication := by
    intro d other id hd hne hid' hother'
    rw [hkind]
    rcases hid id hid' with hold | hshared
    · exact h c d call other id hcall hd (Ne.symm hne) hold hother'
    · exact hshared other (List.mem_of_getElem? hd) hother'
  intro d d' first second id hd hd' hne hfirst hsecond
  by_cases hc : d = c
  · subst hc
    rw [hself, Option.some_inj] at hd
    subst hd
    rw [hother d' (Ne.symm hne)] at hd'
    exact hmoved d' second id hd' (Ne.symm hne) hfirst hsecond
  · rw [hother d hc] at hd
    by_cases hc' : d' = c
    · subst hc'
      rw [hself, Option.some_inj] at hd'
      subst hd'
      exact (hmoved d first id hd hc hsecond hfirst).symm
    · rw [hother d' hc'] at hd'
      exact h d d' first second id hd hd' hne hfirst hsecond

theorem sharedOk_step {a : Action} (hinv : Inv s) (h : SharedOk s)
    (hstep : step s a = some s') : SharedOk s' := by
  cases a with
  | call kind channel streamId =>
    cases hstep
    -- the new call has no id yet
    have hold : ∀ {d : ℕ} {call : Call} {id : ℕ}, (s.calls ++
        [⟨kind, channel, streamId, addCall kind channel streamId, .started, []⟩])[d]? =
          some call → call.phase.id? = some id → s.calls[d]? = some call := by
      intro d call id hd hid
      by_cases hlt : d < s.calls.length
      · exact (List.getElem?_append_left hlt).symm.trans hd
      · have hnew := (List.getElem?_append_right (not_lt.mp hlt)).symm.trans hd
        have hmem := List.mem_of_getElem? hnew
        rw [List.mem_singleton.mp hmem] at hid
        cases hid
    intro d d' first second id hd hd' hne hfirst hsecond
    exact h d d' first second id (hold hd hfirst) (hold hd' hsecond) hne hfirst hsecond
  | register c existing =>
    obtain ⟨call, hcall, -, ⟨id, -, ⟨hadds, registration, hreg, hkind, -⟩, rfl⟩ | ⟨-, rfl⟩⟩ :=
      step_register hstep
    · refine sharedOk_setCall h hcall ?_ ?_
      · rfl
      · rintro id' ⟨rfl⟩
        refine Or.inr fun other hmem hother => ?_
        -- the registration that is shared is one of a publication
        obtain ⟨registration', hreg', hkind', -⟩ :=
          registered_of_id (hinv.callOk other hmem) hother
        rw [hreg, Option.some_inj] at hreg'
        subst hreg'
        rw [hinv.body call (List.mem_of_getElem? hcall), addCall_eq] at hadds
        exact ⟨hadds, hkind'.symm.trans hkind⟩
    · -- nobody has a fresh id
      have hmoved : SharedOk (s.setCall c { call with phase := .waiting s.nextId }) := by
        refine sharedOk_setCall h hcall ?_ ?_
        · rfl
        · rintro id' ⟨rfl⟩
          refine Or.inr fun other hmem hother => ?_
          obtain ⟨registration', hreg', -⟩ := registered_of_id (hinv.callOk other hmem) hother
          exact absurd (hinv.lt _ _ hreg') (lt_irrefl _)
      exact hmoved
  | lookup c =>
    obtain ⟨call, id, hcall, hphase, rfl⟩ := step_lookup_iff.mp hstep
    refine sharedOk_setCall h hcall ?_ ?_
    · rfl
    · intro id' hid'
      rw [id_receive] at hid'
      rw [hphase]
      exact Or.inl hid'
  | reply id accepted =>
    obtain ⟨registration, -, -, rfl⟩ := step_reply hstep
    exact h
  | offer c =>
    rw [step_offer hstep]
    exact h
  | close c =>
    obtain ⟨call, id, resource, registration, -, -, -, rfl⟩ := step_close hstep
    exact h
  | drop c =>
    obtain ⟨call, id, resource, hcall, hphase, rfl⟩ := step_drop hstep
    have hmoved : SharedOk (s.setCall c { call with phase := .dropped id (some resource) }) := by
      refine sharedOk_setCall h hcall ?_ ?_
      · rfl
      · intro id' hid'
        rw [hphase]
        exact Or.inl hid'
    intro d d' first second id' hd hd'
    rw [calls_release] at hd hd'
    exact hmoved d d' first second id' hd hd'

theorem sharedOk_run {as : List Action} (h : StepMachine.run step init as = some s) :
    SharedOk s := by
  refine StepMachine.run_invariant_under inv_of_step ?_ h inv_init ?_
  · intro u a u' hu hok ha
    exact sharedOk_step hu hok ha
  · intro d d' first second id hd
    cases hd

/-! ## Calls that wait for ever -/

/-- Only its own lookups move a call that waits. -/
theorem calls_of_waiting {a : Action} (hcall : s.calls[c]? = some call)
    (hphase : call.phase = .waiting id) (ha : a ≠ .lookup c) (h : step s a = some s') :
    s'.calls[c]? = some call := by
  have hset : ∀ {c' : ℕ} {call' call'' : Call}, s.calls[c']? = some call' →
      call'.phase ≠ call.phase → (s.calls.set c' call'')[c]? = some call := by
    intro c' call' call'' hcall' hne
    have hc : c' ≠ c := by
      rintro rfl
      rw [hcall, Option.some_inj] at hcall'
      exact hne (hcall' ▸ rfl)
    exact (List.getElem?_set_ne hc).trans hcall
  cases a with
  | call kind channel streamId =>
    cases h
    exact (List.getElem?_append_left (List.getElem?_eq_some_iff.mp hcall).1).trans hcall
  | register c' existing =>
    obtain ⟨call', hcall', hstarted, ⟨id', -, -, rfl⟩ | ⟨-, rfl⟩⟩ := step_register h
    · exact hset hcall' (by rw [hstarted, hphase]; nofun)
    · exact hset hcall' (by rw [hstarted, hphase]; nofun)
  | lookup c' =>
    obtain ⟨call', id', -, -, rfl⟩ := step_lookup_iff.mp h
    have hc : c' ≠ c := by
      rintro rfl
      exact ha rfl
    exact (List.getElem?_set_ne hc).trans hcall
  | reply id' accepted =>
    obtain ⟨registration, -, -, rfl⟩ := step_reply h
    exact hcall
  | offer c' =>
    rw [step_offer h]
    exact hcall
  | close c' =>
    obtain ⟨call', id', resource, registration, -, -, -, rfl⟩ := step_close h
    exact hcall
  | drop c' =>
    obtain ⟨call', id', resource, hcall', hreturned, rfl⟩ := step_drop h
    rw [calls_release]
    exact hset hcall' (by rw [hreturned, hphase]; nofun)

/-- A call that waits for a released registration waits on. -/
def WaitsForReleased (s : State) (c id : ℕ) : Prop :=
  (∃ call, s.calls[c]? = some call ∧ call.phase = .waiting id) ∧
    ∃ registration, s.registrations id = some registration ∧ registration.status = .released

theorem waitsForReleased_step {a : Action} (hinv : Inv s) (hwaits : WaitsForReleased s c id)
    (h : step s a = some s') : WaitsForReleased s' c id := by
  obtain ⟨⟨call, hcall, hphase⟩, registration, hreg, hstatus⟩ := hwaits
  obtain ⟨registration', hreg', hevolves⟩ := (inv_step hinv h).2 id registration hreg
  refine ⟨?_, registration', hreg', hevolves.released hstatus⟩
  by_cases ha : a = .lookup c
  · subst ha
    obtain ⟨registration₁, s₁, call₁, hreg₁, hlookup, hcall₁, hnext⟩ :=
      lookup_of_waiting hinv hcall hphase
    rw [h, Option.some_inj] at hlookup
    rw [hreg, Option.some_inj] at hreg₁
    subst hlookup hreg₁
    rw [hstatus] at hnext
    exact ⟨call₁, hcall₁, hnext⟩
  · exact ⟨call, calls_of_waiting hcall hphase ha h, hphase⟩

theorem waitsForReleased_reaches (hinv : Inv s) (hwaits : WaitsForReleased s c id)
    (h : Reaches step s s') : WaitsForReleased s' c id := by
  obtain ⟨as, has⟩ := h
  refine StepMachine.run_invariant_under (P := fun u => WaitsForReleased u c id) inv_of_step ?_
    has hinv hwaits
  intro u a u' hu hwaits' ha
  exact waitsForReleased_step hu hwaits' ha

/-- A call finishes with the next lookup after the reply. -/
theorem reaches_finished (hinv : Inv s) {registration : Registration}
    (hreg : s.registrations id = some registration) (hstatus : registration.status ≠ .released)
    (hcall : s.calls[c]? = some call) (hphase : call.phase = .waiting id) :
    ∃ s' call', Reaches step s s' ∧ s'.calls[c]? = some call' ∧
      ∀ id', call'.phase ≠ .waiting id' := by
  -- a lookup, once the registration is ready or refused
  have hlookup : ∀ {u : State} {registration' : Registration}, Inv u → Reaches step s u →
      u.registrations id = some registration' → u.calls[c]? = some call →
      registration'.status = .ready ∨ registration'.status = .refused →
      ∃ s' call', Reaches step s s' ∧ s'.calls[c]? = some call' ∧
        ∀ id', call'.phase ≠ .waiting id' := by
    intro u registration' hu hreaches hreg' hcall' hreplied
    obtain ⟨registration₁, u', call', hreg₁, hstep, hcall₁, hnext⟩ :=
      lookup_of_waiting hu hcall' hphase
    rw [hreg', Option.some_inj] at hreg₁
    subst hreg₁
    refine ⟨u', call', StepMachine.reaches_trans hreaches (StepMachine.reaches_of_step hstep),
      hcall₁, ?_⟩
    intro id' hwaiting
    rw [hnext] at hwaiting
    rcases hreplied with hready | hrefused
    · rw [hready] at hwaiting
      cases hwaiting
    · rw [hrefused] at hwaiting
      cases hwaiting
  have hrefl : Reaches step s s := StepMachine.reaches_refl s
  cases hnow : registration.status with
  | released => exact absurd hnow hstatus
  | ready => exact hlookup hinv hrefl hreg hcall (Or.inl hnow)
  | refused => exact hlookup hinv hrefl hreg hcall (Or.inr hnow)
  | pending =>
    have hreply : step s (.reply id true) =
        some (s.setRegistration id { registration with status := .ready }) := by
      simp [step, hreg, hnow]
    exact hlookup (inv_step hinv hreply).1 (StepMachine.reaches_of_step hreply)
      (s.setRegistration_self id _) hcall (Or.inl rfl)

/-- **Hanging calls.** In every state that a run reaches, a call that waits can still return or
raise, unless proxies of its registration have been dropped and none is held; and then it is a
call of `add_publication`, which shares the registration of another one. -/
theorem call_can_finish_iff {as : List Action} (h : StepMachine.run step init as = some s)
    (hcall : s.calls[c]? = some call) (hphase : call.phase = .waiting id) :
    ((∃ s' call', Reaches step s s' ∧ s'.calls[c]? = some call' ∧
        ∀ id', call'.phase ≠ .waiting id') ↔ ¬(s.WasDropped id ∧ ¬s.IsHeld id)) ∧
      (s.WasDropped id → call.kind = .publication) := by
  have hinv := inv_run h
  have hid : call.phase.id? = some id := by
    rw [hphase]
    rfl
  obtain ⟨registration, hreg, -⟩ :=
    registered_of_id (hinv.callOk call (List.mem_of_getElem? hcall)) hid
  have hreleased := releasedOk_run h id registration hreg
  refine ⟨⟨?_, ?_⟩, ?_⟩
  · rintro ⟨s', call', hreaches, hcall', hfinished⟩ hdropped
    have hwaits : WaitsForReleased s c id :=
      ⟨⟨call, hcall, hphase⟩, registration, hreg, hreleased.mpr hdropped⟩
    obtain ⟨⟨call'', hcall'', hwaiting⟩, -⟩ := waitsForReleased_reaches hinv hwaits hreaches
    rw [hcall', Option.some_inj] at hcall''
    exact hfinished id (hcall'' ▸ hwaiting)
  · intro hnot
    exact reaches_finished hinv hreg (fun hstatus => hnot (hreleased.mp hstatus)) hcall hphase
  · rintro ⟨c', call', hcall', hdropped⟩
    have hne : c ≠ c' := by
      rintro rfl
      rw [hcall, Option.some_inj] at hcall'
      subst hcall'
      rw [hphase] at hdropped
      cases hdropped
    exact (sharedOk_run h c c' call call' id hcall hcall' hne hid
      (by rw [hdropped]; rfl)).1

/-- The same publication is added again while the proxy of the first one is held, which is
dropped before the second call looks it up. -/
def sharedAndDropped : List Action :=
  added ++ [.lookup 0, .call .publication "aeron:ipc" 1, .register 1 (some 0), .drop 0]

theorem call_can_finish_iff_dropped :
    ∃ s, StepMachine.run step init sharedAndDropped = some s ∧
      ¬∃ s' call', Reaches step s s' ∧ s'.calls[1]? = some call' ∧
        ∀ id', call'.phase ≠ .waiting id' := by
  have hrun : StepMachine.run step init sharedAndDropped = some _ := rfl
  have hiff := (call_can_finish_iff (c := 1) hrun rfl rfl).1
  refine ⟨_, hrun, fun hfinish => ?_⟩
  -- the first call has dropped its proxy, and the second one has none
  apply hiff.mp hfinish
  refine ⟨⟨0, _, rfl, rfl⟩, ?_⟩
  rintro ⟨_ | _ | d, call, hcall, hheld⟩
  · cases hcall
    cases hheld
  · cases hcall
    cases hheld
  · cases hcall

end Client

end AeronPy
