import AeronPy.Reuse
import AeronPy.WaitLoops

/-!
# Waiting without the GIL

`context::add_subscription`, `add_publication` and `add_exclusive_publication` wait for a reply
of the driver, which the thread of the client only processes once the handlers that it calls
have returned, and these need the GIL. With the guards of the modules a thread can always get
back to its Python code, whatever the others do: `call_can_return`. A method that waited with
the GIL could not: `unguarded_call_stuck`. As in `Threads`, the handlers of the context add
nothing, and no proxy is dropped or closed: a call that waits for what another one drops is in
`Released`. Clients without a thread are in `Invoker`.

* `reaches_free`: the GIL can be given up;
* `reaches_idle`, `reaches_drained`: the thread of the client can finish what it is doing, and
  process all messages;
* `reaches_replied`, `reaches_settled`: a registration can be replied to, and its call end.
-/

namespace AeronPy

namespace Threads

open StepMachine (Reaches)

variable {cfg : Config} {s s' : State} {t : Thread} {c : ℕ}

/-! ## What the threads can always do -/

/-- A bound on the steps that an instruction still takes. -/
def Instr.weight : Instr → ℕ
  | .add .. => 2
  | .callbacks _ n => 4 * n + 1
  | _ => 1

def weight (code : List Instr) : ℕ := (code.map Instr.weight).sum

theorem weight_cons (instr : Instr) (rest : List Instr) :
    weight (instr :: rest) = instr.weight + weight rest := by
  simp [weight]

theorem weight_tail_lt (instr : Instr) (rest : List Instr) :
    weight rest < weight (instr :: rest) := by
  rw [weight_cons]
  have hpos : 0 < instr.weight := by
    cases instr <;> simp [Instr.weight]
  omega

/-- A callback is lighter than the part of the poll that makes it. -/
theorem weight_callback_lt (held : Bool) (n : ℕ) (rest : List Instr) :
    weight (callback held (.callbacks held n :: rest)) <
      weight (.callbacks held (n + 1) :: rest) := by
  cases held <;> simp [callback, weight_cons, Instr.weight] <;> omega

theorem step_exec {code : List Instr} (existing : Option ℕ) (hcode : s.code t = code) :
    step cfg s (.exec t existing) = exec s t existing code := by
  rw [step, hcode]

/-- Only the code of some threads has changed, and the owner. -/
structure Frame (s s' : State) (untouched : Thread → Prop) : Prop where
  client : s'.client = s.client
  inbox : s'.inbox = s.inbox
  code : ∀ u, untouched u → s'.code u = s.code u

theorem frame_setCode {code : List Instr} {owner : Option Thread} :
    Frame s { s.setCode t code with owner } (· ≠ t) where
  client := rfl
  inbox := rfl
  code _ hu := Function.update_of_ne hu _ _

theorem frame_trans {s₁ s₂ : State} {P Q R : Thread → Prop} (h : Frame s s₁ P)
    (h' : Frame s₁ s₂ Q) (hP : ∀ u, R u → P u) (hQ : ∀ u, R u → Q u) : Frame s s₂ R where
  client := h'.client.trans h.client
  inbox := h'.inbox.trans h.inbox
  code u hu := (h'.code u (hQ u hu)).trans (h.code u (hP u hu))

/-- The thread that has the GIL can give it up: no code that runs with the GIL waits. -/
theorem reaches_free_of_owner (hguard : ∀ kind, cfg.guard (.add kind) = true) (hg : Guarded s)
    (howner : s.owner = some t) :
    ∃ s', Reaches (step cfg) s s' ∧ s'.owner = none ∧ Frame s s' (· ≠ t) := by
  induction hn : weight (s.code t) using Nat.strong_induction_on generalizing s with
  | _ n ih =>
    have hholds := (hg.gil.owner_iff t).mp howner
    -- one step that keeps the GIL, and what the rest of the code can do
    have hnext : ∀ {a : Action} {code : List Instr},
        step cfg s a = some (s.setCode t code) → weight code < n →
        ∃ s', Reaches (step cfg) s s' ∧ s'.owner = none ∧ Frame s s' (· ≠ t) := by
      intro a code ha hlt
      obtain ⟨s', hs', hnone, hframe⟩ := ih _ hlt (guarded_step hguard hg ha) howner
        (by rw [s.setCode_self])
      exact ⟨s', StepMachine.reaches_of_step_of_reaches ha hs', hnone,
        frame_trans frame_setCode hframe (fun _ h => h) fun _ h => h⟩
    cases hcode : s.code t with
    | nil =>
      rw [hcode] at hholds
      cases hholds
    | cons instr rest =>
      rw [hcode] at hholds hn
      have hlt := weight_tail_lt instr rest
      rw [hn] at hlt
      cases instr with
      | acquire => cases hholds
      | release =>
        have hstep : step cfg s (.exec t none) = some { s.setCode t rest with owner := none } :=
          step_exec none hcode
        exact ⟨_, StepMachine.reaches_of_step hstep, rfl, frame_setCode⟩
      | python =>
        have hstep : step cfg s (.switch t) =
            some { s.setCode t (.acquire :: .python :: rest) with owner := none } := by
          simp only [step, hcode]
        exact ⟨_, StepMachine.reaches_of_step hstep, rfl, frame_setCode⟩
      | add kind channel streamId => cases hholds
      | wait c => cases hholds
      | callbacks held m =>
        cases m with
        | zero => exact hnext (step_exec none hcode) hlt
        | succ m =>
          apply hnext (step_exec none hcode)
          rw [← hn]
          exact weight_callback_lt held m rest
      | native => exact hnext (step_exec none hcode) hlt
      | reply id accepted => cases hholds

/-- The GIL can be given up, and only the thread that had it moves. -/
theorem reaches_free (hguard : ∀ kind, cfg.guard (.add kind) = true) (hg : Guarded s) :
    ∃ s', Reaches (step cfg) s s' ∧ s'.owner = none ∧ Frame s s' (s.owner ≠ some ·) := by
  cases howner : s.owner with
  | none => exact ⟨s, StepMachine.reaches_refl s, howner, rfl, rfl, fun _ _ => rfl⟩
  | some t =>
    obtain ⟨s', hs', hnone, hframe⟩ := reaches_free_of_owner hguard hg howner
    refine ⟨s', hs', hnone, hframe.client, hframe.inbox, ?_⟩
    intro u hu
    apply hframe.code u
    rintro rfl
    exact hu rfl

/-- The threads of the program that are without the GIL have not moved. -/
def Aside (s s' : State) : Prop :=
  ∀ u, u ≠ .conductor → ScopedLock.Holds (Instr.use .lacks) (s.code u) = false →
    s'.code u = s.code u

theorem aside_refl (s : State) : Aside s s := fun _ _ _ => rfl

theorem aside_trans {s₁ s₂ : State} (h : Aside s s₁) (h' : Aside s₁ s₂) : Aside s s₂ := by
  intro u hu hlacks
  have hcode := h u hu hlacks
  rw [← hcode] at hlacks
  exact (h' u hu hlacks).trans hcode

theorem aside_of_frame (hg : Guarded s) (h : Frame s s' (s.owner ≠ some ·)) : Aside s s' := by
  intro u _ hlacks
  exact h.code u (hg.gil.owner_ne hlacks)

theorem aside_setCode {code : List Instr} {owner : Option Thread} {client : Client.State}
    {inbox : List Message} :
    Aside s { s.setCode .conductor code with owner, client, inbox } := by
  intro u hu _
  exact Function.update_of_ne hu _ _

/-- A reply on its way can be processed. -/
theorem step_reply_of_pending {client : Client.State} {id : ℕ} (h : Pending client id)
    (accepted : Bool) : ∃ client', Client.step client (.reply id accepted) = some client' := by
  obtain ⟨registration, hreg, hstatus⟩ := Option.map_eq_some_iff.mp h
  refine ⟨client.setRegistration id
    { registration with status := if accepted then .ready else .refused }, ?_⟩
  apply Option.bind_eq_some_iff.mpr
  refine ⟨registration, hreg, ?_⟩
  exact Option.bind_eq_some_iff.mpr ⟨(), (Option.guard_eq_some' _).mpr hstatus, rfl⟩

/-- The thread of the client can finish what it is doing. -/
theorem reaches_idle (hguard : ∀ kind, cfg.guard (.add kind) = true) (hg : Guarded s) :
    ∃ s', Reaches (step cfg) s s' ∧ s'.code .conductor = [] ∧ s'.inbox = s.inbox ∧
      Aside s s' := by
  induction hn : weight (s.code .conductor) using Nat.strong_induction_on generalizing s with
  | _ n ih =>
    -- some steps that make the code lighter, and what the rest of it can do
    have hnext : ∀ {s₁ : State}, Reaches (step cfg) s s₁ → s₁.inbox = s.inbox → Aside s s₁ →
        weight (s₁.code .conductor) < n →
        ∃ s', Reaches (step cfg) s s' ∧ s'.code .conductor = [] ∧ s'.inbox = s.inbox ∧
          Aside s s' := by
      intro s₁ hs₁ hinbox haside hlt
      obtain ⟨s', hs', hidle, hinbox', haside'⟩ :=
        ih _ hlt (guarded_reaches hguard hg hs₁) rfl
      exact ⟨s', StepMachine.reaches_trans hs₁ hs', hidle, hinbox'.trans hinbox,
        aside_trans haside haside'⟩
    have hstep : ∀ {a : Action} {code : List Instr} {owner : Option Thread}
        {client : Client.State}, step cfg s a =
          some { s.setCode .conductor code with owner, client } → weight code < n →
        ∃ s', Reaches (step cfg) s s' ∧ s'.code .conductor = [] ∧ s'.inbox = s.inbox ∧
          Aside s s' := by
      intro a code owner client ha hlt
      apply hnext (StepMachine.reaches_of_step ha) rfl aside_setCode
      exact (congrArg weight (s.setCode_self .conductor code)).trans_lt hlt
    have hok := hg.inv.code .conductor
    cases hcode : s.code .conductor with
    | nil => exact ⟨s, StepMachine.reaches_refl s, hcode, rfl, aside_refl s⟩
    | cons instr rest =>
      rw [hcode] at hn hok
      have hlt := weight_tail_lt instr rest
      rw [hn] at hlt
      cases instr with
      | acquire =>
        -- the others give the GIL up first
        obtain ⟨s₁, hs₁, hnone, hframe⟩ := reaches_free hguard hg
        have howner : s.owner ≠ some .conductor := by
          apply hg.gil.owner_ne
          rw [hcode]
          rfl
        have hcode₁ := (hframe.code .conductor howner).trans hcode
        have hacquire : step cfg s₁ (.exec .conductor none) =
            some { s₁.setCode .conductor rest with owner := some .conductor } :=
          (step_exec none hcode₁).trans (if_pos hnone)
        apply hnext (StepMachine.reaches_trans hs₁ (StepMachine.reaches_of_step hacquire))
        · exact hframe.inbox
        · exact aside_trans (aside_of_frame hg hframe) aside_setCode
        · exact (congrArg weight (s₁.setCode_self .conductor rest)).trans_lt hlt
      | release => exact hstep (step_exec none hcode) hlt
      | python =>
        have hret : step cfg s (.ret .conductor) = some (s.setCode .conductor rest) := by
          simp only [step, hcode]
        exact hstep hret hlt
      | add kind channel streamId => exact (allowed_head hok rfl).elim
      | wait c => exact (allowed_head hok rfl).elim
      | callbacks held m =>
        cases m with
        | zero => exact hstep (step_exec none hcode) hlt
        | succ m =>
          apply hstep (step_exec none hcode)
          rw [← hn]
          exact weight_callback_lt held m rest
      | native => exact hstep (step_exec none hcode) hlt
      | reply id accepted =>
        have hmem : id ∈ s.inFlight := by
          apply List.mem_append_left
          rw [hcode]
          exact List.mem_cons_self
        obtain ⟨client, hclient⟩ :=
          step_reply_of_pending (hg.inv.replies.pending id hmem) accepted
        have hreply : step cfg s (.exec .conductor none) =
            some { s.setCode .conductor rest with client } :=
          (step_exec none hcode).trans (Option.bind_eq_some_iff.mpr ⟨client, hclient, rfl⟩)
        exact hstep hreply hlt

/-- The thread of the client can process all the messages there are. -/
theorem reaches_drained (hguard : ∀ kind, cfg.guard (.add kind) = true) (hg : Guarded s) :
    ∃ s', Reaches (step cfg) s s' ∧ s'.inFlight = [] ∧ Aside s s' := by
  induction hm : s.inbox generalizing s with
  | nil =>
    obtain ⟨s', hs', hidle, hinbox, haside⟩ := reaches_idle hguard hg
    refine ⟨s', hs', ?_, haside⟩
    rw [State.inFlight, hidle, hinbox, hm]
    rfl
  | cons message messages ih =>
    obtain ⟨s₁, hs₁, hidle, hinbox, haside⟩ := reaches_idle hguard hg
    have hprocess : step cfg s₁ .process = some
        { s₁.setCode .conductor (message.code cfg s₁.client) with inbox := messages } := by
      simp only [step, hidle, hinbox, hm]
    obtain ⟨s', hs', hdrained, haside'⟩ :=
      ih (guarded_step hguard (guarded_reaches hguard hg hs₁) hprocess) rfl
    refine ⟨s', ?_, hdrained, aside_trans haside (aside_trans aside_setCode haside')⟩
    exact StepMachine.reaches_trans hs₁ (StepMachine.reaches_of_step_of_reaches hprocess hs')

/-- The driver's reply has been processed. -/
def Replied (client : Client.State) (id : ℕ) : Prop :=
  ∃ registration, client.registrations id = some registration ∧
    registration.status ≠ .pending

theorem pending_or_replied {client : Client.State} {id : ℕ} {registration : Client.Registration}
    (h : client.registrations id = some registration) :
    Pending client id ∨ Replied client id := by
  by_cases hstatus : registration.status = .pending
  · exact Or.inl (Option.map_eq_some_iff.mpr ⟨registration, h, hstatus⟩)
  · exact Or.inr ⟨registration, h, hstatus⟩

/-- A reply stays on its way until it has been processed. -/
theorem replied_reaches {id : ℕ} (hinv : Inv s) (h : id ∈ s.inFlight ∨ Replied s.client id)
    (hreaches : Reaches (step cfg) s s') : id ∈ s'.inFlight ∨ Replied s'.client id := by
  have hboth : Inv s' ∧ (id ∈ s'.inFlight ∨ Replied s'.client id) := by
    refine StepMachine.invariant_of_reaches
      (I := fun u => Inv u ∧ (id ∈ u.inFlight ∨ Replied u.client id)) ?_ hreaches ⟨hinv, h⟩
    rintro u a u' ⟨hu, hid⟩ ha
    have hchange := change_of_step ha
    refine ⟨inv_step hu hchange, ?_⟩
    rcases inFlight_change hu.client.inv hu.code hchange with ⟨heq, hsame⟩ |
      ⟨other, accepted, -, heq, hclient⟩ | ⟨other, accepted, heq, hreply⟩
    · rw [heq]
      apply hid.imp_right
      rintro ⟨registration, hreg, hstatus⟩
      exact ⟨registration, hsame id registration hreg, hstatus⟩
    · rw [heq, hclient]
      exact hid.imp_left (List.mem_append_left _)
    · obtain ⟨registration, hreg, -, hclient⟩ := Client.step_reply hreply
      by_cases hother : id = other
      · -- this reply is the one that was processed
        subst hother
        refine Or.inr ⟨{ registration with status := if accepted then .ready else .refused },
          ?_, ?_⟩
        · rw [hclient]
          exact Client.State.setRegistration_self ..
        · cases accepted <;> nofun
      · rcases hid with hmem | ⟨registration', hreg', hstatus⟩
        · rw [heq] at hmem
          exact Or.inl ((List.mem_cons.mp hmem).resolve_left hother)
        · refine Or.inr ⟨registration', ?_, hstatus⟩
          rw [hclient]
          exact (Client.State.setRegistration_of_ne _ hother _).trans hreg'
  exact hboth.2

/-- The driver can reply, and the thread of the client process the reply. -/
theorem reaches_replied (hguard : ∀ kind, cfg.guard (.add kind) = true) (hg : Guarded s) {id : ℕ}
    (hid : ∃ registration, s.client.registrations id = some registration) :
    ∃ s', Reaches (step cfg) s s' ∧ Replied s'.client id ∧ Aside s s' := by
  -- whatever is on its way goes first
  obtain ⟨s₁, hs₁, hnone, haside⟩ := reaches_drained hguard hg
  have hg₁ := guarded_reaches hguard hg hs₁
  by_cases hreplied : Replied s₁.client id
  · exact ⟨s₁, hs₁, hreplied, haside⟩
  · have hregistered : ∃ registration, s₁.client.registrations id = some registration := by
      obtain ⟨registration, hreg⟩ := hid
      obtain ⟨as, has⟩ := hs₁
      obtain ⟨bs, -, hrun⟩ := client_run has
      obtain ⟨registration', hreg', -⟩ :=
        Client.kept_run hg.inv.client.inv hrun id registration hreg
      exact ⟨registration', hreg'⟩
    obtain ⟨registration, hreg⟩ := hregistered
    have hpending := (pending_or_replied hreg).resolve_right hreplied
    have hsend : step cfg s₁ (.send (.reply id true)) =
        some { s₁ with inbox := s₁.inbox ++ [.reply id true] } := by
      apply if_pos
      refine ⟨?_, hpending⟩
      rw [hnone]
      exact List.not_mem_nil
    have hg₂ := guarded_step hguard hg₁ hsend
    obtain ⟨s₃, hs₃, hnone₃, haside₃⟩ := reaches_drained hguard hg₂
    refine ⟨s₃, StepMachine.reaches_trans hs₁
      (StepMachine.reaches_of_step_of_reaches hsend hs₃), ?_, aside_trans haside haside₃⟩
    have hmem : id ∈ State.inFlight { s₁ with inbox := s₁.inbox ++ [.reply id true] } := by
      simp [State.inFlight, Message.replyTo]
    rcases replied_reaches hg₂.inv (Or.inl hmem) hs₃ with hmem₃ | hreplied₃
    · rw [hnone₃] at hmem₃
      cases hmem₃
    · exact hreplied₃

/-! ## Calls return -/

/-- The call has returned its resource, or raised. -/
def Settled (call : Client.Call) : Prop :=
  ∃ id, call.phase = .returned id (some id) ∨ call.phase = .raised id

theorem settled_step {client client' : Client.State} {a : Client.Action} {call : Client.Call}
    (ha : Waiting a) (hcall : client.calls[c]? = some call) (hsettled : Settled call)
    (h : Client.step client a = some client') : client'.calls[c]? = some call := by
  obtain ⟨id, hphase⟩ := hsettled
  -- another call moves
  have hset : ∀ {c' : ℕ} {call' call'' : Client.Call}, client.calls[c']? = some call' →
      call'.phase = .started ∨ (∃ id, call'.phase = .waiting id) →
      (client.calls.set c' call'')[c]? = some call := by
    intro c' call' call'' hcall' hphase'
    have hne : c' ≠ c := by
      intro hc
      subst hc
      rw [hcall, Option.some_inj] at hcall'
      subst hcall'
      rcases hphase with hphase | hphase <;> simp [hphase] at hphase'
    exact (List.getElem?_set_ne hne).trans hcall
  cases a with
  | call kind channel streamId =>
    have hlt := (List.getElem?_eq_some_iff.mp hcall).1
    exact (calls_call hlt h).trans hcall
  | register c' existing =>
    obtain ⟨call', hcall', hstarted, ⟨id', -, -, rfl⟩ | ⟨-, rfl⟩⟩ := Client.step_register h
    · exact hset hcall' (Or.inl hstarted)
    · exact hset hcall' (Or.inl hstarted)
  | lookup c' =>
    obtain ⟨call', id', hcall', hwaiting, rfl⟩ := Client.step_lookup_iff.mp h
    exact hset hcall' (Or.inr ⟨id', hwaiting⟩)
  | reply id' accepted =>
    obtain ⟨registration, -, -, rfl⟩ := Client.step_reply h
    exact hcall
  | offer c' => exact ha.elim
  | close c' => exact ha.elim
  | drop c' => exact ha.elim

theorem settled_reaches {call : Client.Call} (hcall : s.client.calls[c]? = some call)
    (hsettled : Settled call) (h : Reaches (step cfg) s s') :
    s'.client.calls[c]? = some call := by
  obtain ⟨as, has⟩ := h
  obtain ⟨bs, hbs, hrun⟩ := client_run has
  clear has
  generalize s.client = client at hrun hcall
  induction bs generalizing client with
  | nil =>
    cases hrun
    exact hcall
  | cons b bs ih =>
    obtain ⟨hb, hbs⟩ := List.forall_mem_cons.mp hbs
    obtain ⟨client₁, hstep, hrest⟩ := StepMachine.run_cons_eq_some.mp hrun
    exact ih hbs client₁ hrest (settled_step hb hcall hsettled hstep)

/-- A wait ends with the first lookup after the reply. -/
theorem reaches_settled (hguard : ∀ kind, cfg.guard (.add kind) = true) (hg : Guarded s)
    {rest : List Instr} (hcode : s.code t = .wait c :: rest) :
    ∃ s', Reaches (step cfg) s s' ∧ s'.code t = rest ∧
      ∃ call, s'.client.calls[c]? = some call ∧ Settled call := by
  obtain ⟨call, id, hcall, hphase⟩ := hg.inv.waits.waiting t c ⟨rest, hcode⟩
  have hregistered : ∃ registration, s.client.registrations id = some registration := by
    have hok := hg.inv.client.inv.callOk call (List.mem_of_getElem? hcall)
    simp only [Client.CallOk, hphase] at hok
    obtain ⟨registration, hreg, -⟩ := hok.1
    exact ⟨registration, hreg⟩
  obtain ⟨s₁, hs₁, hreplied, haside⟩ := reaches_replied hguard hg hregistered
  have hg₁ := guarded_reaches hguard hg hs₁
  have ht : t ≠ .conductor := by
    rintro rfl
    exact allowed_head (hg.inv.code .conductor) hcode
  have hcode₁ : s₁.code t = .wait c :: rest := by
    rw [haside t ht (by rw [hcode]; rfl), hcode]
  -- the call waits for the same id as before
  obtain ⟨call₁, id₁, hcall₁, hphase₁⟩ := hg₁.inv.waits.waiting t c ⟨rest, hcode₁⟩
  have hid : id₁ = id := by
    obtain ⟨as, has⟩ := hs₁
    obtain ⟨bs, -, hrun⟩ := client_run has
    have hkept : ∃ call, s₁.client.calls[c]? = some call ∧ call.phase.id? = some id := by
      refine StepMachine.run_invariant
        (I := fun client => ∃ call, client.calls[c]? = some call ∧ call.phase.id? = some id)
        ?_ hrun ⟨call, hcall, by rw [hphase]; rfl⟩
      rintro client b client' ⟨call, hcall, hid⟩ hb
      exact Client.id_step hcall hid hb
    obtain ⟨call₁', hcall₁', hid₁⟩ := hkept
    rw [hcall₁, Option.some_inj] at hcall₁'
    rw [← hcall₁', hphase₁] at hid₁
    exact Option.some.inj hid₁
  subst hid
  obtain ⟨registration, client, call', hreg, hlookup, hcall', hnext⟩ :=
    Client.lookup_of_waiting hg₁.inv.client.inv hcall₁ hphase₁
  have hsettled : Settled call' := by
    obtain ⟨registration', hreg', hstatus⟩ := hreplied
    rw [hreg, Option.some_inj] at hreg'
    subst hreg'
    have hnone := hg₁.inv.client.noneReleased id₁ registration hreg
    cases hready : registration.status with
    | pending => exact absurd hready hstatus
    | released => exact absurd hready hnone
    | ready =>
      rw [hready] at hnext
      exact ⟨id₁, Or.inl hnext⟩
    | refused =>
      rw [hready] at hnext
      exact ⟨id₁, Or.inr hnext⟩
  have hfound : step cfg s₁ (.exec t none) = some { s₁.setCode t rest with client } := by
    rw [step_exec none hcode₁]
    refine Option.bind_eq_some_iff.mpr ⟨client, hlookup, ?_⟩
    refine Option.bind_eq_some_iff.mpr ⟨call', hcall', ?_⟩
    obtain ⟨id, hphase' | hphase'⟩ := hsettled
    · rw [hphase']
      rfl
    · rw [hphase']
      rfl
  exact ⟨_, StepMachine.reaches_trans hs₁ (StepMachine.reaches_of_step hfound),
    s₁.setCode_self t rest, call', hcall', hsettled⟩

/-- An `add` can register what was asked for under a fresh id. -/
theorem step_add (cfg : Config) {kind : Client.Kind} {channel : String} {streamId : Int32}
    {rest : List Instr} (hcode : s.code t = .add kind channel streamId :: rest) :
    ∃ client, step cfg s (.exec t none) =
      some { s.setCode t (.wait s.client.calls.length :: rest) with client } := by
  simp [step, hcode, exec, Client.step]

/-- A thread that has Python code to run can get to run it. -/
theorem reaches_python (hguard : ∀ kind, cfg.guard (.add kind) = true) (hg : Guarded s)
    (ht : t ≠ .conductor) (hmem : .python ∈ s.code t) :
    ∃ s', Reaches (step cfg) s s' ∧ s'.InPython t := by
  induction hn : weight (s.code t) using Nat.strong_induction_on generalizing s with
  | _ n ih =>
    have hnext : ∀ {s₁ : State}, Reaches (step cfg) s s₁ → .python ∈ s₁.code t →
        weight (s₁.code t) < n → ∃ s', Reaches (step cfg) s s' ∧ s'.InPython t := by
      intro s₁ hs₁ hmem₁ hlt
      obtain ⟨s', hs', hpython⟩ := ih _ hlt (guarded_reaches hguard hg hs₁) hmem₁ rfl
      exact ⟨s', StepMachine.reaches_trans hs₁ hs', hpython⟩
    have hstep : ∀ {s₁ : State} {a : Action} {code : List Instr} {owner : Option Thread}
        {client : Client.State}, Reaches (step cfg) s s₁ → step cfg s₁ a =
          some { s₁.setCode t code with owner, client } → .python ∈ code → weight code < n →
        ∃ s', Reaches (step cfg) s s' ∧ s'.InPython t := by
      intro s₁ a code owner client hs₁ ha hcode hlt
      have hself := s₁.setCode_self t code
      apply hnext (StepMachine.reaches_trans hs₁ (StepMachine.reaches_of_step ha))
      · exact hself.symm ▸ hcode
      · exact (congrArg weight hself).trans_lt hlt
    have hrefl : Reaches (step cfg) s s := StepMachine.reaches_refl s
    cases hcode : s.code t with
    | nil =>
      rw [hcode] at hmem
      cases hmem
    | cons instr rest =>
      rw [hcode] at hmem hn
      have hlt := weight_tail_lt instr rest
      rw [hn] at hlt
      have htail : instr ≠ .python → .python ∈ rest := by
        intro hinstr
        exact (List.mem_cons.mp hmem).resolve_left (Ne.symm hinstr)
      cases instr with
      | acquire =>
        obtain ⟨s₁, hs₁, hnone, hframe⟩ := reaches_free hguard hg
        have howner : s.owner ≠ some t := by
          apply hg.gil.owner_ne
          rw [hcode]
          rfl
        have hcode₁ := (hframe.code t howner).trans hcode
        have hacquire : step cfg s₁ (.exec t none) =
            some { s₁.setCode t rest with owner := some t } :=
          (step_exec none hcode₁).trans (if_pos hnone)
        exact hstep hs₁ hacquire (htail (by simp)) hlt
      | release => exact hstep hrefl (step_exec none hcode) (htail (by simp)) hlt
      | python => exact ⟨s, hrefl, rest, hcode⟩
      | add kind channel streamId =>
        obtain ⟨client, hadd⟩ := step_add cfg hcode
        apply hstep hrefl hadd (List.mem_cons_of_mem _ (htail (by simp)))
        rw [← hn, weight_cons, weight_cons]
        exact Nat.add_lt_add_right (by decide : 1 < 2) _
      | wait c =>
        obtain ⟨s₁, hs₁, hcode₁, -⟩ := reaches_settled hguard hg hcode
        apply hnext hs₁
        · exact hcode₁ ▸ htail (by simp)
        · exact (congrArg weight hcode₁).trans_lt hlt
      | callbacks held m =>
        cases m with
        | zero => exact hstep hrefl (step_exec none hcode) (htail (by simp)) hlt
        | succ m =>
          apply hstep hrefl (step_exec none hcode)
          · cases held <;> simp [callback]
          · rw [← hn]
            exact weight_callback_lt held m rest
      | native => exact hstep hrefl (step_exec none hcode) (htail (by simp)) hlt
      | reply id accepted =>
        cases t with
        | conductor => exact absurd rfl ht
        | program i => exact (allowed_head (hg.inv.code (.program i)) hcode).elim

/-- **No deadlock.** With the guards of the modules, and whatever handlers the context has, as
long as these add nothing and no proxy is dropped or closed: in every state that the threads
can reach, a call that waits for its resource can still return it or raise, and its thread get
back to Python code with the GIL. -/
theorem call_can_return (hguard : cfg.guard = callGuard) {as : List Action}
    (h : StepMachine.run (step cfg) init as = some s) (hwaits : s.WaitsIn t c) :
    ∃ s', Reaches (step cfg) s s' ∧ s'.InPython t ∧ s'.owner = some t ∧
      ∃ call, s'.client.calls[c]? = some call ∧ Settled call := by
  have hguarded : ∀ kind, cfg.guard (.add kind) = true := by
    intro kind
    rw [hguard]
    rfl
  have hg := guarded_run hguarded h
  obtain ⟨rest, hcode⟩ := hwaits
  have hok := hg.inv.code t
  rw [hcode] at hok
  have ht : t ≠ .conductor := by
    rintro rfl
    exact allowed_head hok rfl
  obtain ⟨s₁, hs₁, hcode₁, call, hcall, hsettled⟩ := reaches_settled hguarded hg hcode
  have hmem : .python ∈ s₁.code t := by
    rw [hcode₁]
    exact hok.returns.1 trivial
  have hg₁ := guarded_reaches hguarded hg hs₁
  obtain ⟨s', hs', hpython⟩ := reaches_python hguarded hg₁ ht hmem
  have hg' := guarded_reaches hguarded hg₁ hs'
  obtain ⟨rest', hcode'⟩ := hpython
  exact ⟨s', StepMachine.reaches_trans hs₁ hs', ⟨rest', hcode'⟩,
    hg'.gil.owner_of_needs hcode' rfl, call, settled_reaches hcall hsettled hs', hsettled⟩

/-- A thread adds a subscription, and waits. -/
def waitingCall : List Action :=
  [.exec (.program 0) none, .call (.program 0) (.add .subscription "aeron:ipc" 1000),
    .exec (.program 0) none, .exec (.program 0) none]

theorem call_can_return_waitingCall :
    ∃ s s', StepMachine.run (step subscriptionHandler) init waitingCall = some s ∧
      Reaches (step subscriptionHandler) s s' ∧ s'.InPython (.program 0) := by
  have hrun : StepMachine.run (step subscriptionHandler) init waitingCall = some _ := rfl
  obtain ⟨s', hs', hpython, -⟩ :=
    call_can_return (t := .program 0) (c := 0) rfl hrun ⟨_, rfl⟩
  exact ⟨_, s', hrun, hs', hpython⟩

/-! ## Waiting with the GIL -/

/-- A thread waits with the GIL, and the thread of the client for the GIL. -/
structure Stuck (s : State) (t : Thread) (c id : ℕ) : Prop where
  owner : s.owner = some t
  waits : s.WaitsIn t c
  handler : ∃ rest, s.code .conductor = .acquire :: rest
  call : ∃ call, s.client.calls[c]? = some call ∧ call.phase = .waiting id
  pending : Pending s.client id

/-- A lookup of the call gives null. -/
theorem lookup_of_pending {client client' : Client.State} {id : ℕ} {call : Client.Call}
    (hinv : Client.Inv client) (hcall : client.calls[c]? = some call)
    (hphase : call.phase = .waiting id) (hpending : Pending client id)
    (h : Client.step client (.lookup c) = some client') :
    ∃ call', client'.calls[c]? = some call' ∧ call'.phase = .waiting id := by
  obtain ⟨registration, client₁, call', hreg, hlookup, hcall', hnext⟩ :=
    Client.lookup_of_waiting hinv hcall hphase
  obtain ⟨registration', hreg', hstatus⟩ := Option.map_eq_some_iff.mp hpending
  rw [hreg, Option.some_inj] at hreg'
  rw [h, Option.some_inj] at hlookup
  subst hreg' hlookup
  rw [hstatus] at hnext
  exact ⟨call', hcall', hnext⟩

/-- The call waits on, whichever call does a lookup. -/
theorem waiting_of_lookup {client client' : Client.State} {c' id : ℕ} {call : Client.Call}
    (hinv : Client.Inv client) (hcall : client.calls[c]? = some call)
    (hphase : call.phase = .waiting id) (hpending : Pending client id)
    (h : Client.step client (.lookup c') = some client') :
    ∃ call', client'.calls[c]? = some call' ∧ call'.phase = .waiting id := by
  by_cases hc : c' = c
  · subst hc
    exact lookup_of_pending hinv hcall hphase hpending h
  · exact ⟨call, (calls_lookup (Ne.symm hc) h).trans hcall, hphase⟩

/-- A lookup that ends a call is one of another call. -/
theorem ne_of_found {client client' : Client.State} {c' id : ℕ} {call call' : Client.Call}
    (hinv : Client.Inv client) (hcall : client.calls[c]? = some call)
    (hphase : call.phase = .waiting id) (hpending : Pending client id)
    (h : Client.step client (.lookup c') = some client')
    (hcall' : client'.calls[c']? = some call') (hphase' : ∀ id, call'.phase ≠ .waiting id) :
    c' ≠ c := by
  rintro rfl
  obtain ⟨call'', hcall'', hwaiting⟩ := lookup_of_pending hinv hcall hphase hpending h
  rw [hcall', Option.some_inj] at hcall''
  exact hphase' id (hcall'' ▸ hwaiting)

/-- No step of any thread changes that. -/
theorem stuck_step {id : ℕ} (hinv : Inv s) (hgil : s.GilInv .free) (hstuck : Stuck s t c id)
    (h : Change cfg s s') : Stuck s' t c id := by
  obtain ⟨howner, ⟨rest, hcode⟩, ⟨handler, hhandler⟩, ⟨call, hcall, hphase⟩, hpending⟩ := hstuck
  have hconductor : t ≠ .conductor := by
    rintro rfl
    rw [hhandler] at hcode
    cases hcode
  -- a step of another thread than these two
  have hother : ∀ {u : Thread} {code : List Instr} {client : Client.State}, u ≠ t →
      u ≠ .conductor → (∃ call, client.calls[c]? = some call ∧ call.phase = .waiting id) →
      Pending client id → Stuck { s.setCode u code with client } t c id := by
    intro u code client hu huc hcall' hpending'
    refine ⟨howner, ⟨rest, ?_⟩, ⟨handler, ?_⟩, hcall', hpending'⟩
    · exact (s.setCode_of_ne (Ne.symm hu) code).trans hcode
    · exact (s.setCode_of_ne (Ne.symm huc) code).trans hhandler
  cases h with
  | runs u owner code hruns h =>
    generalize hold : s.code u = old at hruns
    rw [howner] at hruns
    have hut : u ≠ t := by
      rintro rfl
      rw [hcode] at hold
      subst hold
      cases hruns
    have huc : u ≠ .conductor := by
      rintro rfl
      rw [hhandler] at hold
      subst hold
      cases hruns
    -- nor does another thread give the GIL up
    have howner' : owner = some t := by
      cases hruns with
      | switch => exact absurd (Option.some.inj
          ((hgil.owner_of_needs hold rfl).symm.trans howner)) hut
      | release => exact absurd (Option.some.inj
          ((hgil.owner_of_release hold rfl).symm.trans howner)) hut
      | _ => rfl
    rw [h, howner', ← howner]
    exact hother hut huc ⟨call, hcall, hphase⟩ hpending
  | add u others kind channel streamId existing called client hold hadd hregister h =>
    have hut : u ≠ t := by
      rintro rfl
      rw [hcode] at hold
      cases hold
    have huc : u ≠ .conductor := by
      rintro rfl
      rw [hhandler] at hold
      cases hold
    have hlt := (List.getElem?_eq_some_iff.mp hcall).1
    have hcalls := ((calls_register hregister).2 c hlt.ne).trans (calls_call hlt hadd)
    have hsame := same_register (Client.inv_of_step _ _ _ hinv.client.inv hadd) hregister
    rw [h]
    refine hother hut huc ⟨call, hcalls.trans hcall, hphase⟩ (pending_same hsame ?_)
    cases hadd
    exact hpending
  | wait u others c' client call' hold hlookup hcall' hphase' h =>
    rw [h]
    refine ⟨howner, ⟨rest, hcode⟩, ⟨handler, hhandler⟩, ?_, ?_⟩
    · exact waiting_of_lookup hinv.client.inv hcall hphase hpending hlookup
    · exact (congrArg _ (congrFun (registrations_lookup hlookup) id)).trans hpending
  | found u others c' client call' hold hlookup hcall' hphase' h =>
    have hc := ne_of_found hinv.client.inv hcall hphase hpending hlookup hcall' hphase'
    have hut : u ≠ t := by
      rintro rfl
      rw [hcode] at hold
      injection hold with hwait
      injection hwait with hcc
      exact hc hcc.symm
    have huc : u ≠ .conductor := by
      rintro rfl
      rw [hhandler] at hold
      cases hold
    rw [h]
    apply hother hut huc (waiting_of_lookup hinv.client.inv hcall hphase hpending hlookup)
    exact (congrArg _ (congrFun (registrations_lookup hlookup) id)).trans hpending
  | reply u others id' accepted client hold hreply h =>
    -- only the thread of the client processes replies
    cases u with
    | conductor =>
      rw [hhandler] at hold
      cases hold
    | program i => exact (allowed_head (hinv.code (.program i)) hold).elim
  | send message hsend h =>
    rw [h]
    exact ⟨howner, ⟨rest, hcode⟩, ⟨handler, hhandler⟩, ⟨call, hcall, hphase⟩, hpending⟩
  | process message messages hold hinbox h =>
    rw [hhandler] at hold
    cases hold

theorem stuck_reaches {id : ℕ} (hinv : Inv s) (hgil : s.GilInv .free) (hstuck : Stuck s t c id)
    (h : Reaches (step cfg) s s') : Stuck s' t c id := by
  have hall : (Inv s' ∧ s'.GilInv .free) ∧ Stuck s' t c id := by
    refine StepMachine.invariant_of_reaches
      (I := fun u => (Inv u ∧ u.GilInv .free) ∧ Stuck u t c id) ?_ h ⟨⟨hinv, hgil⟩, hstuck⟩
    rintro u a u' ⟨⟨hu, hugil⟩, hustuck⟩ ha
    have hchange := change_of_step ha
    exact ⟨⟨inv_step hu hchange, gilInv_step (Or.inl rfl) hugil hchange⟩,
      stuck_step hu hugil hustuck hchange⟩
  exact hall.2

/-- The client after the first `add`. -/
def firstAdd (kind : Client.Kind) (channel : String) (streamId : Int32) : Client.State where
  registrations := Function.update (fun _ => none) 0
    (some ⟨kind, channel, streamId, .pending, false⟩)
  nextId := 1
  calls := [⟨kind, channel, streamId, Client.addCall kind channel streamId, .waiting 0, []⟩]

/-- An `add` with the GIL whose reply the client takes before anything else. -/
theorem reaches_stuck {kind : Client.Kind} (hguard : cfg.guard (.add kind) = false)
    (hhandles : cfg.handles (newHandler kind) = true) (channel : String) (streamId : Int32) :
    ∃ s, Reaches (step cfg) init s ∧ Stuck s (.program 0) 0 0 := by
  let s₁ : State :=
    { init.setCode (.program 0) [.python, .release] with owner := some (.program 0) }
  let s₂ : State := s₁.setCode (.program 0) [.add kind channel streamId, .python, .release]
  let s₃ : State :=
    { s₂.setCode (.program 0) [.wait 0, .python, .release] with
      client := firstAdd kind channel streamId }
  let s₄ : State := { s₃ with inbox := [.reply 0 true] }
  let s₅ : State :=
    { s₄.setCode .conductor [.acquire, .python, .release, .reply 0 true] with inbox := [] }
  have h₁ : step cfg init (.exec (.program 0) none) = some s₁ := rfl
  have h₂ : step cfg s₁ (.call (.program 0) (.add kind channel streamId)) = some s₂ := by
    have hcode : (Call.add kind channel streamId).code cfg.guard [.python, .release] =
        [.add kind channel streamId, .python, .release] := by
      simp [Call.code, Call.method, Call.body, hguard]
    change some (s₁.setCode (.program 0) (Call.code cfg.guard _ _)) = some s₂
    rw [hcode]
  have h₃ : step cfg s₂ (.exec (.program 0) none) = some s₃ := by
    cases kind <;> rfl
  have h₄ : step cfg s₃ (.send (.reply 0 true)) = some s₄ := by
    cases kind <;> rfl
  have h₅ : step cfg s₄ .process = some s₅ := by
    have hcode : (Message.reply 0 true).code cfg (firstAdd kind channel streamId) =
        [.acquire, .python, .release, .reply 0 true] := by
      simp [Message.code, firstAdd, Config.handlerCode, hhandles, callback]
    change some { s₄.setCode .conductor (Message.code cfg _ _) with inbox := [] } = some s₅
    rw [hcode]
  refine ⟨s₅, ?_, rfl, ⟨_, rfl⟩, ⟨_, rfl⟩, ⟨_, rfl, rfl⟩, rfl⟩
  apply StepMachine.reaches_of_step_of_reaches h₁
  apply StepMachine.reaches_of_step_of_reaches h₂
  apply StepMachine.reaches_of_step_of_reaches h₃
  apply StepMachine.reaches_of_step_of_reaches h₄
  exact StepMachine.reaches_of_step h₅

/-- **The guards are needed.** Were one of the methods bound without the guard, and a handler
for its resources installed, the threads could reach a state from which no steps at all end
the call: its thread has the GIL, and the thread of the client waits for it. -/
theorem unguarded_call_stuck {kind : Client.Kind} (hguard : cfg.guard (.add kind) = false)
    (hhandles : cfg.handles (newHandler kind) = true) (channel : String) (streamId : Int32) :
    ∃ s t c, Reaches (step cfg) init s ∧ s.WaitsIn t c ∧
      ∀ s', Reaches (step cfg) s s' → s'.WaitsIn t c ∧ s'.owner = some t ∧
        ∃ rest, s'.code .conductor = .acquire :: rest := by
  obtain ⟨s, hs, hstuck⟩ := reaches_stuck hguard hhandles channel streamId
  obtain ⟨as, has⟩ := hs
  have hgil : s.GilInv .free := gilInv_run (Or.inl rfl) has
  have hinv : Inv s := StepMachine.run_invariant
    (fun _ _ _ hu ha => inv_step hu (change_of_step ha)) has inv_init
  refine ⟨s, .program 0, 0, ⟨as, has⟩, hstuck.waits, ?_⟩
  intro s' hs'
  have hstuck' := stuck_reaches hinv hgil hstuck hs'
  exact ⟨hstuck'.waits, hstuck'.owner, hstuck'.handler⟩

/-- Subscriptions would be added with the GIL. -/
def unguardedSubscription : Config where
  guard method := callGuard method && method ≠ .add .subscription
  handles := subscriptionHandler.handles

theorem unguarded_call_stuck_subscription :
    ∃ s t c, Reaches (step unguardedSubscription) init s ∧ s.WaitsIn t c ∧
      ∀ s', Reaches (step unguardedSubscription) s s' → s'.WaitsIn t c ∧ s'.owner = some t ∧
        ∃ rest, s'.code .conductor = .acquire :: rest :=
  have hguard : unguardedSubscription.guard (.add .subscription) = false := rfl
  unguarded_call_stuck hguard rfl "aeron:ipc" 1000

end Threads

end AeronPy
