import AeronPy.Registration
import AeronPy.Threads

/-!
# Where the threads wait

What holds in every state of the threads, whatever methods have the guard.

* `CodeOk`: a thread that waits in a call does that before anything else, and goes back to
  Python code after it; only the thread of the client processes replies;
* `WaitsOk`: the calls that are waited for do wait, each for one thread;
* `RepliesOk`: a reply on its way is the only one to a registration that waits for it;
* `inv_step`: every step keeps all of them, with the invariant of the client.
-/

namespace AeronPy

namespace Threads

open StepMachine (Reaches)

variable {cfg : Config} {s s' : State} {t u : Thread} {c : ℕ}

/-! ## The code of the threads -/

/-- The thread of the client does not add resources, and the others process no replies. -/
def Instr.Allowed : Thread → Instr → Prop
  | .conductor, .add .. | .conductor, .wait _ => False
  | .program _, .reply .. => False
  | _, _ => True

/-- The instructions of a method that waits. -/
def Instr.Waits : Instr → Prop
  | .add .. | .wait _ => True
  | _ => False

/-- A method that waits returns to Python code. -/
def Returns : List Instr → Prop
  | [] => True
  | instr :: rest => (instr.Waits → .python ∈ rest) ∧ Returns rest

/-- A thread that waits in a call does that before anything else. -/
structure CodeOk (t : Thread) (code : List Instr) : Prop where
  allowed : ∀ instr ∈ code, instr.Allowed t
  noWait : ∀ instr ∈ code.tail, ∀ c, instr ≠ .wait c
  returns : Returns code

theorem codeOk_tail {instr : Instr} {rest : List Instr} (h : CodeOk t (instr :: rest)) :
    CodeOk t rest := by
  constructor
  · intro instr' hmem
    exact h.allowed instr' (List.mem_cons_of_mem instr hmem)
  · intro instr' hmem
    exact h.noWait instr' (List.mem_of_mem_tail hmem)
  · exact h.returns.2

theorem allowed_head {code rest : List Instr} {instr : Instr} (h : CodeOk t code)
    (hcode : code = instr :: rest) : instr.Allowed t := by
  apply h.allowed
  rw [hcode]
  exact List.mem_cons_self

/-- Code is put before code that does not start with a wait. -/
theorem codeOk_cons {instr : Instr} {code : List Instr} (h : CodeOk t code)
    (hhead : ∀ c rest, code ≠ .wait c :: rest) (hallowed : instr.Allowed t)
    (hreturns : instr.Waits → .python ∈ code) : CodeOk t (instr :: code) := by
  constructor
  · intro instr' hmem
    rcases List.mem_cons.mp hmem with rfl | hmem
    · exact hallowed
    · exact h.allowed instr' hmem
  · intro instr' hmem c hwait
    rw [List.tail_cons] at hmem
    cases code with
    | nil => cases hmem
    | cons first rest =>
      rcases List.mem_cons.mp hmem with rfl | hmem
      · exact hhead c rest (by rw [hwait])
      · exact h.noWait instr' hmem c hwait
  · exact ⟨hreturns, h.returns⟩

theorem not_wait_tail {instr : Instr} {rest : List Instr} (h : CodeOk t (instr :: rest)) (c : ℕ)
    (others : List Instr) : rest ≠ .wait c :: others := by
  intro heq
  have hmem : Instr.wait c ∈ (instr :: rest).tail := by
    rw [heq]
    exact List.mem_cons_self
  exact h.noWait _ hmem c rfl

theorem callback_codeOk {held : Bool} {code : List Instr} (h : CodeOk t code)
    (hhead : ∀ c rest, code ≠ .wait c :: rest) :
    CodeOk t (callback held code) ∧ ∀ c rest, callback held code ≠ .wait c :: rest := by
  have hallowed : ∀ instr : Instr, instr = .acquire ∨ instr = .python ∨ instr = .release →
      instr.Allowed t := by
    intro instr hinstr
    rcases hinstr with rfl | rfl | rfl <;> cases t <;> trivial
  cases held with
  | true => exact ⟨codeOk_cons h hhead (hallowed _ (by simp)) False.elim, nofun⟩
  | false =>
    have hrelease := codeOk_cons h hhead (hallowed .release (by simp)) False.elim
    have hpython := codeOk_cons hrelease nofun (hallowed .python (by simp)) False.elim
    exact ⟨codeOk_cons hpython nofun (hallowed .acquire (by simp)) False.elim, nofun⟩

/-- The steps of a thread's own keep its code so, and start no wait. -/
theorem codeOk_runs {o o' : Option Thread} {old new : List Instr} (h : Runs cfg t o old o' new)
    (hold : CodeOk t old) : CodeOk t new ∧ ∀ c rest, new ≠ .wait c :: rest := by
  have hallowed : ∀ {instr : Instr}, instr = .acquire ∨ instr = .release → instr.Allowed t := by
    intro instr hinstr
    rcases hinstr with rfl | rfl <;> cases t <;> trivial
  cases h with
  | @call _ rest call hconductor =>
    -- the body may be an `add`, but not on the thread of the client
    have hbody : ∀ held, (call.body held).Allowed t := by
      intro held
      cases call with
      | add kind channel streamId =>
        cases t with
        | conductor => exact absurd rfl (hconductor rfl kind channel streamId)
        | program i => trivial
      | _ => cases t <;> trivial
    have hbodyWait : ∀ held c rest code, call.body held :: code ≠ .wait c :: rest := by
      intro held c rest code heq
      cases call <;> cases heq
    unfold Call.code
    split
    · have hacquire := codeOk_cons hold nofun (hallowed (Or.inl rfl)) False.elim
      have hcode := codeOk_cons hacquire nofun (hbody false) fun _ => by simp
      have hrelease := codeOk_cons hcode (fun c rest => hbodyWait _ c rest _)
        (hallowed (Or.inr rfl)) False.elim
      exact ⟨hrelease, nofun⟩
    · have hcode := codeOk_cons hold nofun (hbody true) fun _ => by simp
      exact ⟨hcode, fun c rest => hbodyWait _ c rest _⟩
  | ret => exact ⟨codeOk_tail hold, not_wait_tail hold⟩
  | raises =>
    have hrest := codeOk_tail (codeOk_tail hold)
    have hrelease := codeOk_cons (codeOk_tail hrest) (not_wait_tail hrest)
      (hallowed (Or.inr rfl)) False.elim
    exact ⟨hrelease, nofun⟩
  | raisesHeld =>
    have hrest := codeOk_tail hold
    exact ⟨codeOk_tail hrest, not_wait_tail hrest⟩
  | switch => exact ⟨codeOk_cons hold nofun (hallowed (Or.inl rfl)) False.elim, nofun⟩
  | acquire => exact ⟨codeOk_tail hold, not_wait_tail hold⟩
  | release => exact ⟨codeOk_tail hold, not_wait_tail hold⟩
  | polled => exact ⟨codeOk_tail hold, not_wait_tail hold⟩
  | @callback _ held n rest =>
    have hnext : CodeOk t (.callbacks held n :: rest) :=
      codeOk_cons (codeOk_tail hold) (not_wait_tail hold) (by cases t <;> trivial) False.elim
    exact callback_codeOk hnext nofun
  | native => exact ⟨codeOk_tail hold, not_wait_tail hold⟩

/-! ## Replies on their way -/

theorem replyTo_runs {o o' : Option Thread} {old new : List Instr}
    (h : Runs cfg t o old o' new) :
    new.filterMap Instr.replyTo = old.filterMap Instr.replyTo := by
  cases h with
  | call call hconductor =>
    unfold Call.code
    split <;> cases call <;> rfl
  | @callback _ held n rest => cases held <;> rfl
  | _ => rfl

theorem replyTo_message (client : Client.State) (message : Message) :
    (message.code cfg client).filterMap Instr.replyTo = message.replyTo.toList := by
  have hhandler : ∀ (setting : ContextSetting) (code : List Instr),
      (cfg.handlerCode setting code).filterMap Instr.replyTo =
        code.filterMap Instr.replyTo := by
    intro setting code
    unfold Config.handlerCode
    split <;> rfl
  cases message with
  | image available => exact hhandler _ _
  | reply id accepted =>
    simp only [Message.code]
    split
    · split
      · exact hhandler _ _
      · rfl
    · rfl

/-- The registrations of the client are still there, as they were. -/
def Same (client client' : Client.State) : Prop :=
  ∀ id registration, client.registrations id = some registration →
    client'.registrations id = some registration

theorem same_register {client client' : Client.State} {existing : Option ℕ}
    (hinv : Client.Inv client) (h : Client.step client (.register c existing) = some client') :
    Same client client' := by
  intro id registration hid
  obtain ⟨call, -, -, ⟨other, -, -, rfl⟩ | ⟨-, rfl⟩⟩ := Client.step_register h
  · exact hid
  · have hne : id ≠ client.nextId := (hinv.lt id registration hid).ne
    exact (Client.State.setRegistration_of_ne _ hne _).trans hid

theorem registrations_lookup {client client' : Client.State}
    (h : Client.step client (.lookup c) = some client') :
    client'.registrations = client.registrations := by
  obtain ⟨call, id, -, -, rfl⟩ := Client.step_lookup_iff.mp h
  rfl

/-- The replies on their way stay, but for one that is sent and one that has been processed. -/
theorem inFlight_change (hclient : Client.Inv s.client) (hcode : ∀ t, CodeOk t (s.code t))
    (h : Change cfg s s') :
    (s'.inFlight = s.inFlight ∧ Same s.client s'.client) ∨
      (∃ id accepted, s.CanSend (.reply id accepted) ∧ s'.inFlight = s.inFlight ++ [id] ∧
        s'.client = s.client) ∨
      ∃ id accepted, s.inFlight = id :: s'.inFlight ∧
        Client.step s.client (.reply id accepted) = some s'.client := by
  -- what the program's threads have left to do is not on its way
  have hprogram : ∀ {t : Thread} {code : List Instr}, t ≠ .conductor →
      Function.update s.code t code .conductor = s.code .conductor := by
    intro t code ht
    exact Function.update_of_ne (Ne.symm ht) _ _
  cases h with
  | runs t owner code hruns h =>
    refine Or.inl ⟨?_, by rw [h]; exact fun _ _ hid => hid⟩
    rw [h]
    by_cases ht : t = .conductor
    · subst ht
      simp only [State.inFlight, State.setCode, Function.update_self, replyTo_runs hruns]
    · simp only [State.inFlight, State.setCode, hprogram ht]
  | add t rest kind channel streamId existing called client hold hcall hregister h =>
    have ht : t ≠ .conductor := by
      intro ht
      subst ht
      exact allowed_head (hcode .conductor) hold
    have hsame := same_register (Client.inv_of_step _ _ _ hclient hcall) hregister
    rw [h]
    refine Or.inl ⟨?_, fun id registration hid => ?_⟩
    · simp only [State.inFlight, State.setCode, hprogram ht]
    · -- the call itself registers nothing
      apply hsame
      cases hcall
      exact hid
  | wait t rest c client call hold hlookup hcall hphase h =>
    rw [h]
    refine Or.inl ⟨rfl, fun id registration hid => ?_⟩
    exact (congrFun (registrations_lookup hlookup) id).trans hid
  | found t rest c client call hold hlookup hcall hphase h =>
    have ht : t ≠ .conductor := by
      intro ht
      subst ht
      exact allowed_head (hcode .conductor) hold
    rw [h]
    refine Or.inl ⟨?_, fun id registration hid => ?_⟩
    · simp only [State.inFlight, State.setCode, hprogram ht]
    · exact (congrFun (registrations_lookup hlookup) id).trans hid
  | reply t rest id accepted client hold hreply h =>
    have ht : t = .conductor := by
      cases t with
      | conductor => rfl
      | program i => exact (allowed_head (hcode (.program i)) hold).elim
    subst ht
    refine Or.inr (Or.inr ⟨id, accepted, ?_, by rw [h]; exact hreply⟩)
    rw [h]
    simp only [State.inFlight, State.setCode, Function.update_self, hold]
    rfl
  | send message hsend h =>
    rw [h]
    cases message with
    | image available =>
      refine Or.inl ⟨?_, fun _ _ hid => hid⟩
      simp [State.inFlight, Message.replyTo]
    | reply id accepted =>
      refine Or.inr (Or.inl ⟨id, accepted, hsend, ?_, rfl⟩)
      simp [State.inFlight, Message.replyTo]
  | process message messages hold hinbox h =>
    rw [h]
    refine Or.inl ⟨?_, fun _ _ hid => hid⟩
    simp only [State.inFlight, State.setCode, Function.update_self, replyTo_message, hold, hinbox]
    cases message <;> rfl

/-! ## Waiting calls -/

theorem calls_lookup {client client' : Client.State} {c c' : ℕ} (hc : c' ≠ c)
    (h : Client.step client (.lookup c) = some client') :
    client'.calls[c']? = client.calls[c']? := by
  obtain ⟨call, id, -, -, rfl⟩ := Client.step_lookup_iff.mp h
  exact List.getElem?_set_ne (Ne.symm hc)

/-- A call that has registered waits; the others are where they were. -/
theorem calls_register {client client' : Client.State} {c : ℕ} {existing : Option ℕ}
    (h : Client.step client (.register c existing) = some client') :
    (∃ call id, client'.calls[c]? = some call ∧ call.phase = .waiting id) ∧
      ∀ c', c' ≠ c → client'.calls[c']? = client.calls[c']? := by
  obtain ⟨call, hcall, -, hregister⟩ := Client.step_register h
  have hset : ∀ id, client'.calls = client.calls.set c { call with phase := .waiting id } →
      (∃ call id, client'.calls[c]? = some call ∧ call.phase = .waiting id) ∧
        ∀ c', c' ≠ c → client'.calls[c']? = client.calls[c']? := by
    intro id hcalls
    rw [hcalls]
    have hlt := (List.getElem?_eq_some_iff.mp hcall).1
    refine ⟨⟨_, id, List.getElem?_set_self hlt, rfl⟩, ?_⟩
    intro c' hc
    exact List.getElem?_set_ne (Ne.symm hc)
  rcases hregister with ⟨id, -, -, rfl⟩ | ⟨-, rfl⟩
  · exact hset id rfl
  · exact hset client.nextId rfl

theorem calls_call {client client' : Client.State} {kind : Client.Kind} {channel : String}
    {streamId : Int32} {c : ℕ} (hc : c < client.calls.length)
    (h : Client.step client (.call kind channel streamId) = some client') :
    client'.calls[c]? = client.calls[c]? := by
  cases h
  exact List.getElem?_append_left hc

/-- Thread `t` is in the wait loop of call `c`. -/
def State.WaitsIn (s : State) (t : Thread) (c : ℕ) : Prop := ∃ rest, s.code t = .wait c :: rest

/-- Only calls that wait are waited for, each by one thread. -/
structure WaitsOk (s : State) : Prop where
  waiting : ∀ t c, s.WaitsIn t c →
    ∃ call id, s.client.calls[c]? = some call ∧ call.phase = .waiting id
  unique : ∀ t u c, s.WaitsIn t c → s.WaitsIn u c → t = u

theorem lt_of_waitsIn (h : WaitsOk s) (hwaits : s.WaitsIn t c) : c < s.client.calls.length := by
  obtain ⟨call, id, hcall, -⟩ := h.waiting t c hwaits
  exact (List.getElem?_eq_some_iff.mp hcall).1

/-- The other threads wait in the calls that they waited in. -/
theorem waitsIn_setCode {code : List Instr} {owner : Option Thread} {client : Client.State}
    {inbox : List Message} (hcode : ∀ c rest, code ≠ .wait c :: rest)
    (h : State.WaitsIn { s.setCode t code with owner, client, inbox } u c) :
    u ≠ t ∧ s.WaitsIn u c := by
  obtain ⟨rest, hrest⟩ := h
  simp only [State.setCode] at hrest
  by_cases hu : u = t
  · rw [hu, Function.update_self] at hrest
    exact absurd hrest (hcode c rest)
  · rw [Function.update_of_ne hu] at hrest
    exact ⟨hu, rest, hrest⟩

/-- A thread gets code that does not wait, and the calls of the others are as they were. -/
theorem waitsOk_setCode (h : WaitsOk s) {code : List Instr} {owner : Option Thread}
    {client : Client.State} {inbox : List Message} (hcode : ∀ c rest, code ≠ .wait c :: rest)
    (hcalls : ∀ u c, u ≠ t → s.WaitsIn u c → client.calls[c]? = s.client.calls[c]?) :
    WaitsOk { s.setCode t code with owner, client, inbox } where
  waiting u c hu := by
    obtain ⟨hne, hwaits⟩ := waitsIn_setCode hcode hu
    obtain ⟨call, id, hcall, hphase⟩ := h.waiting u c hwaits
    exact ⟨call, id, (hcalls u c hne hwaits).trans hcall, hphase⟩
  unique u v c hu hv := by
    exact h.unique u v c (waitsIn_setCode hcode hu).2 (waitsIn_setCode hcode hv).2

theorem message_codeOk (cfg : Config) (client : Client.State) (message : Message) :
    CodeOk .conductor (message.code cfg client) ∧
      ∀ c rest, message.code cfg client ≠ .wait c :: rest := by
  have hhandler : ∀ (setting : ContextSetting) {code : List Instr}, CodeOk .conductor code →
      (∀ c rest, code ≠ .wait c :: rest) → CodeOk .conductor (cfg.handlerCode setting code) ∧
        ∀ c rest, cfg.handlerCode setting code ≠ .wait c :: rest := by
    intro setting code hcode hhead
    unfold Config.handlerCode
    split
    · exact callback_codeOk hcode hhead
    · exact ⟨hcode, hhead⟩
  have hnil : CodeOk .conductor [] := ⟨by simp, by simp, trivial⟩
  cases message with
  | image available => exact hhandler _ hnil (by simp)
  | reply id accepted =>
    have hreply : CodeOk .conductor [.reply id accepted] :=
      codeOk_cons hnil nofun trivial False.elim
    simp only [Message.code]
    split
    · split
      · exact hhandler _ hreply (by simp)
      · exact ⟨hreply, by simp⟩
    · exact ⟨hreply, by simp⟩

theorem codeOk_setCode (h : ∀ u, CodeOk u (s.code u)) {code : List Instr}
    (hcode : CodeOk t code) (u : Thread) : CodeOk u ((s.setCode t code).code u) := by
  simp only [State.setCode]
  by_cases hu : u = t
  · rw [hu, Function.update_self]
    exact hcode
  · rw [Function.update_of_ne hu]
    exact h u

/-- Every step keeps the code of the threads, and the calls that they wait in. -/
theorem waits_change (hcode : ∀ t, CodeOk t (s.code t)) (hwaits : WaitsOk s)
    (h : Change cfg s s') : (∀ t, CodeOk t (s'.code t)) ∧ WaitsOk s' := by
  cases h with
  | runs t owner code hruns h =>
    rw [h]
    obtain ⟨hok, hhead⟩ := codeOk_runs hruns (hcode t)
    exact ⟨codeOk_setCode hcode hok, waitsOk_setCode hwaits hhead fun _ _ _ _ => rfl⟩
  | add t rest kind channel streamId existing called client hold hcall hregister h =>
    have hok := hcode t
    rw [hold] at hok
    have hwait : CodeOk t (.wait s.client.calls.length :: rest) := by
      refine codeOk_cons (codeOk_tail hok) (not_wait_tail hok) ?_ fun _ => hok.returns.1 trivial
      cases t with
      | conductor => exact (allowed_head hok rfl).elim
      | program i => trivial
    rw [h]
    refine ⟨codeOk_setCode hcode hwait, ?_⟩
    obtain ⟨hnew, hothers⟩ := calls_register hregister
    have hsame : ∀ u c, s.WaitsIn u c → client.calls[c]? = s.client.calls[c]? := by
      intro u c hu
      have hlt := lt_of_waitsIn hwaits hu
      exact (hothers c hlt.ne).trans (calls_call hlt hcall)
    -- the new call is the only one with its number
    have hcases : ∀ u c, State.WaitsIn
        { s.setCode t (.wait s.client.calls.length :: rest) with client } u c →
        u = t ∧ c = s.client.calls.length ∨ u ≠ t ∧ s.WaitsIn u c := by
      rintro u c ⟨rest', hrest⟩
      simp only [State.setCode] at hrest
      by_cases hu : u = t
      · rw [hu, Function.update_self] at hrest
        injection hrest with hwaitc
        injection hwaitc with hc
        exact Or.inl ⟨hu, hc.symm⟩
      · rw [Function.update_of_ne hu] at hrest
        exact Or.inr ⟨hu, rest', hrest⟩
    constructor
    · intro u c hu
      rcases hcases u c hu with ⟨-, rfl⟩ | ⟨-, hu⟩
      · exact hnew
      · obtain ⟨call, id, hc, hphase⟩ := hwaits.waiting u c hu
        exact ⟨call, id, (hsame u c hu).trans hc, hphase⟩
    · intro u v c hu hv
      rcases hcases u c hu with ⟨rfl, rfl⟩ | ⟨-, hu⟩
      · rcases hcases v _ hv with ⟨rfl, -⟩ | ⟨-, hv⟩
        · rfl
        · exact absurd (lt_of_waitsIn hwaits hv) (lt_irrefl _)
      · rcases hcases v c hv with ⟨-, rfl⟩ | ⟨-, hv⟩
        · exact absurd (lt_of_waitsIn hwaits hu) (lt_irrefl _)
        · exact hwaits.unique u v c hu hv
  | wait t rest c client call hold hlookup hcall hphase h =>
    rw [h]
    refine ⟨hcode, ?_, hwaits.unique⟩
    intro u c' hu
    by_cases hc : c' = c
    · obtain ⟨id, hid⟩ := hphase
      exact ⟨call, id, hc ▸ hcall, hid⟩
    · obtain ⟨call', id, hcall', hphase'⟩ := hwaits.waiting u c' hu
      exact ⟨call', id, (calls_lookup hc hlookup).trans hcall', hphase'⟩
  | found t rest c client call hold hlookup hcall hphase h =>
    have hok := hcode t
    rw [hold] at hok
    rw [h]
    refine ⟨codeOk_setCode hcode (codeOk_tail hok), ?_⟩
    apply waitsOk_setCode hwaits (not_wait_tail hok)
    intro u c' hu hwaits'
    -- another thread waits in another call
    apply calls_lookup _ hlookup
    intro hc
    subst hc
    exact hu (hwaits.unique u t c' hwaits' ⟨rest, hold⟩)
  | reply t rest id accepted client hold hreply h =>
    have hok := hcode t
    rw [hold] at hok
    rw [h]
    refine ⟨codeOk_setCode hcode (codeOk_tail hok), ?_⟩
    apply waitsOk_setCode hwaits (not_wait_tail hok)
    intro u c' _ _
    obtain ⟨registration, -, -, rfl⟩ := Client.step_reply hreply
    rfl
  | send message hsend h =>
    rw [h]
    exact ⟨hcode, hwaits.waiting, hwaits.unique⟩
  | process message messages hold hinbox h =>
    rw [h]
    obtain ⟨hok, hhead⟩ := message_codeOk cfg s.client message
    exact ⟨codeOk_setCode hcode hok, waitsOk_setCode hwaits hhead fun _ _ _ _ => rfl⟩

/-! ## The invariant -/

/-- No registration has been released: the program keeps its proxies. -/
def NoneReleased (client : Client.State) : Prop :=
  ∀ id registration, client.registrations id = some registration →
    registration.status ≠ .released

theorem noneReleased_step {client client' : Client.State} {a : Client.Action} (ha : Waiting a)
    (hnone : NoneReleased client) (h : Client.step client a = some client') :
    NoneReleased client' := by
  have hset : ∀ {id : ℕ} {new : Client.Registration}, new.status ≠ .released →
      NoneReleased (client.setRegistration id new) := by
    intro id new hnew other registration hother
    by_cases hid : other = id
    · rw [hid, Client.State.setRegistration_self, Option.some_inj] at hother
      rw [← hother]
      exact hnew
    · rw [Client.State.setRegistration_of_ne _ hid] at hother
      exact hnone other registration hother
  cases a with
  | call kind channel streamId =>
    cases h
    exact hnone
  | register c existing =>
    obtain ⟨call, -, -, ⟨id, -, -, rfl⟩ | ⟨-, rfl⟩⟩ := Client.step_register h
    · exact hnone
    · exact hset nofun
  | lookup c =>
    obtain ⟨call, id, -, -, rfl⟩ := Client.step_lookup_iff.mp h
    exact hnone
  | reply id accepted =>
    obtain ⟨registration, -, -, rfl⟩ := Client.step_reply h
    apply hset
    cases accepted <;> nofun
  | offer c => exact ha.elim
  | close c => exact ha.elim
  | drop c => exact ha.elim

/-- The client's part of the invariant. -/
structure ClientOk (client : Client.State) : Prop where
  inv : Client.Inv client
  noneReleased : NoneReleased client

theorem clientOk_change (hclient : ClientOk s.client) (h : Change cfg s s') :
    ClientOk s'.client := by
  obtain ⟨bs, hbs, hrun⟩ := client_change h
  clear h
  generalize s.client = client at hrun hclient
  induction bs generalizing client with
  | nil =>
    cases hrun
    exact hclient
  | cons b bs ih =>
    obtain ⟨hb, hbs⟩ := List.forall_mem_cons.mp hbs
    obtain ⟨client₁, hstep, hrest⟩ := StepMachine.run_cons_eq_some.mp hrun
    exact ih hbs client₁ hrest ⟨Client.inv_of_step _ _ _ hclient.inv hstep,
      noneReleased_step hb hclient.noneReleased hstep⟩

/-- The registration waits for the driver's reply. -/
def Pending (client : Client.State) (id : ℕ) : Prop :=
  (client.registrations id).map Client.Registration.status = some .pending

theorem pending_same {client client' : Client.State} {id : ℕ} (hsame : Same client client')
    (h : Pending client id) : Pending client' id := by
  obtain ⟨registration, hreg, hstatus⟩ := Option.map_eq_some_iff.mp h
  exact Option.map_eq_some_iff.mpr ⟨registration, hsame id registration hreg, hstatus⟩

/-- Every reply on its way is the only one to a registration that waits for it. -/
structure RepliesOk (s : State) : Prop where
  nodup : s.inFlight.Nodup
  pending : ∀ id ∈ s.inFlight, Pending s.client id

theorem repliesOk_change (hclient : ClientOk s.client) (hcode : ∀ t, CodeOk t (s.code t))
    (hreplies : RepliesOk s) (h : Change cfg s s') : RepliesOk s' := by
  rcases inFlight_change hclient.inv hcode h with ⟨heq, hsame⟩ |
    ⟨id, accepted, ⟨hfresh, hpending⟩, heq, hclient'⟩ | ⟨id, accepted, heq, hreply⟩
  · constructor
    · rw [heq]
      exact hreplies.nodup
    · intro id hid
      rw [heq] at hid
      exact pending_same hsame (hreplies.pending id hid)
  · constructor
    · rw [heq]
      apply List.nodup_append.mpr
      refine ⟨hreplies.nodup, List.nodup_singleton id, ?_⟩
      intro a ha b hb hab
      rw [List.mem_singleton.mp hb] at hab
      exact hfresh (hab ▸ ha)
    · intro other hother
      rw [heq] at hother
      rw [hclient']
      rcases List.mem_append.mp hother with hold | hnew
      · exact hreplies.pending other hold
      · rw [List.mem_singleton.mp hnew]
        exact hpending
  · have hnodup := hreplies.nodup
    rw [heq] at hnodup
    obtain ⟨hnotmem, hrest⟩ := List.nodup_cons.mp hnodup
    refine ⟨hrest, ?_⟩
    intro other hother
    -- the reply that was processed was to another registration
    have hne : other ≠ id := by
      intro hid
      exact hnotmem (hid ▸ hother)
    obtain ⟨registration, -, -, hclient'⟩ := Client.step_reply hreply
    rw [hclient']
    unfold Pending
    rw [Client.State.setRegistration_of_ne _ hne]
    apply hreplies.pending
    rw [heq]
    exact List.mem_cons_of_mem id hother

/-- What holds in every state, whatever methods have the guard. -/
structure Inv (s : State) : Prop where
  client : ClientOk s.client
  code : ∀ t, CodeOk t (s.code t)
  waits : WaitsOk s
  replies : RepliesOk s

theorem inv_step (hinv : Inv s) (h : Change cfg s s') : Inv s' where
  client := clientOk_change hinv.client h
  code := (waits_change hinv.code hinv.waits h).1
  waits := (waits_change hinv.code hinv.waits h).2
  replies := repliesOk_change hinv.client hinv.code hinv.replies h

theorem inv_init : Inv init where
  client := ⟨Client.inv_init, nofun⟩
  code t := by
    cases t with
    | conductor => exact ⟨nofun, nofun, trivial⟩
    | program i => constructor <;> simp [init, Instr.Allowed, Returns, Instr.Waits]
  waits := by
    have hnone : ∀ t c, ¬init.WaitsIn t c := by
      rintro (_ | i) c ⟨rest, hrest⟩ <;> cases hrest
    exact ⟨fun t c h => absurd h (hnone t c), fun t u c h => absurd h (hnone t c)⟩
  replies := ⟨List.nodup_nil, nofun⟩

/-- Both invariants, where every method that waits has the guard. -/
structure Guarded (s : State) : Prop where
  inv : Inv s
  gil : s.GilInv .lacks

theorem guarded_step (hguard : ∀ kind, cfg.guard (.add kind) = true) {a : Action}
    (hg : Guarded s) (h : step cfg s a = some s') : Guarded s' where
  inv := inv_step hg.inv (change_of_step h)
  gil := gilInv_step (Or.inr ⟨rfl, hguard⟩) hg.gil (change_of_step h)

theorem guarded_reaches (hguard : ∀ kind, cfg.guard (.add kind) = true) (hg : Guarded s)
    (h : Reaches (step cfg) s s') : Guarded s' :=
  StepMachine.invariant_of_reaches (fun _ _ _ hu ha => guarded_step hguard hu ha) h hg

theorem guarded_run (hguard : ∀ kind, cfg.guard (.add kind) = true) {as : List Action}
    (h : StepMachine.run (step cfg) init as = some s) : Guarded s :=
  guarded_reaches hguard ⟨inv_init, gilInv_init⟩ ⟨as, h⟩

end Threads

end AeronPy
