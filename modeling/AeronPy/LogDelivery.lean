import AeronPy.LogBuffer

/-!
# The log delivers

`Delivery` takes it as given that while a poll runs the window of a delivered fragment holds
the bytes that were stored. In the log that follows from the producer never being more than
one log length ahead of the subscriber.

`log_refines_delivery`: every run of the log, whatever views are kept, is a run of the delivery
system in which the same fragments are stored and polled. So a handler that reads the data
while it is called reads what was sent (`read_while_polled`).
-/

namespace AeronPy

namespace LogBuffer

/-- The frame as a stored fragment. -/
def Frame.stored (cfg : Config) (f : Frame) : Stored := ⟨f.fragment cfg, f.payload⟩

/-- What a step of the log is in the delivery system, where the log is that of
subscription `0`. -/
def deliverySteps (cfg : Config) (s : State) : Action → List Delivery.Action
  | .offer _ frames => (frames.map (Frame.stored cfg)).map (Delivery.Action.arrive 0)
  | .pad _ => []
  | .poll fragmentLimit count =>
    [.poll 0 fragmentLimit s.memory ((fragments (s.pending.take count)).map (Frame.stored cfg))]
  | .drop _ => []

/-- The frames of the action are sent on the stream. -/
def Action.OnStream (stream : Int32) : Action → Prop
  | .offer _ frames => ∀ f ∈ frames, f.header.stream = stream
  | .pad _ => True
  | .poll .. => True
  | .drop _ => True

/-! ## The log without its views -/

/-- The state as it is if the program keeps no view. -/
def State.withoutViews (s : State) : State := { s with views := [] }

theorem inv_withoutViews {cfg : Config} {s : State} (hinv : Inv cfg s) :
    Inv cfg s.withoutViews :=
  { hinv with viewOf := nofun, viewBehind := nofun, viewInTerm := nofun, viewIntact := nofun }

/-- The views are nothing to the producer. -/
theorem run_append_withoutViews {cfg : Config} {s s' : State} {frames : List Frame}
    (h : StepMachine.run (append cfg) s frames = some s') :
    StepMachine.run (append cfg) s.withoutViews frames = some s'.withoutViews := by
  have hstep : ∀ u v f u', v = u.withoutViews → append cfg u f = some u' →
      ∃ v', append cfg v f = some v' ∧ v' = u'.withoutViews := by
    intro u v f u' hv hf
    obtain ⟨hguard, rfl⟩ := append_eq_some.mp hf
    subst hv
    exact ⟨_, append_eq_some.mpr ⟨hguard, rfl⟩, rfl⟩
  obtain ⟨v, hv, rfl⟩ := StepMachine.run_simulation hstep h rfl
  exact hv

theorem pending_appends {cfg : Config} {s s' : State} {frames : List Frame}
    (h : StepMachine.run (append cfg) s frames = some s') : s'.pending = s.pending ++ frames := by
  induction frames generalizing s with
  | nil =>
    cases h
    exact (List.append_nil _).symm
  | cons f frames ih =>
    obtain ⟨s₁, hf, hrest⟩ := StepMachine.run_cons_eq_some.mp h
    obtain ⟨-, rfl⟩ := append_eq_some.mp hf
    rw [ih hrest, List.append_assoc, List.singleton_append]

theorem fragments_append (frames frames' : List Frame) :
    fragments (frames ++ frames') = fragments frames ++ fragments frames' := List.filter_append ..

theorem fragments_eq_self {frames : List Frame} (h : ∀ f ∈ frames, f.padding = false) :
    fragments frames = frames := by
  apply List.filter_eq_self.mpr
  intro f hf
  rw [h f hf]
  rfl

/-! ## Refinement -/

/-- The unconsumed frames are in the log, and their fragments are what the delivery system has
pending. -/
structure Refines (cfg : Config) (s : State) (d : Delivery.State) : Prop where
  inv : Inv cfg s.withoutViews
  pending : ∀ session,
    d.pending 0 session = ofSession session ((fragments s.pending).map (Frame.stored cfg))

theorem refines_init (cfg : Config) (memory : Memory) :
    Refines cfg (init memory) Delivery.init where
  inv := inv_init cfg memory
  pending _ := rfl

/-- Fragments of the subscription's stream can always arrive. -/
theorem run_arrivals {dcfg : Delivery.Config} {fs : List Stored}
    (hstream : ∀ f ∈ fs, f.stream = dcfg.stream 0) (d : Delivery.State) :
    ∃ d', StepMachine.run (Delivery.step dcfg) d (fs.map (Delivery.Action.arrive 0)) = some d' ∧
      ∀ session, d'.pending 0 session = d.pending 0 session ++ ofSession session fs := by
  induction fs generalizing d with
  | nil => exact ⟨d, rfl, fun session => (List.append_nil _).symm⟩
  | cons f fs ih =>
    obtain ⟨hfirst, hothers⟩ := List.forall_mem_cons.mp hstream
    have harrive : Delivery.step dcfg d (.arrive 0 f) = some (d.store 0 [f]) := if_pos hfirst
    obtain ⟨d', hrun, hpending⟩ := ih hothers (d.store 0 [f])
    refine ⟨d', StepMachine.run_cons_eq_some.mpr ⟨_, harrive, hrun⟩, fun session => ?_⟩
    rw [hpending, Delivery.pending_store, if_pos rfl, List.append_assoc, ← ofSession_append,
      List.singleton_append]

/-- The next frames of the log can be delivered, and hold what was stored. -/
theorem step_delivery_poll {cfg : Config} (dcfg : Delivery.Config) {s : State}
    {d : Delivery.State} (hrefines : Refines cfg s d) {fragmentLimit count : ℕ}
    (hcount : (fragments (s.pending.take count)).length ≤ fragmentLimit) :
    ∃ d', Delivery.step dcfg d (.poll 0 fragmentLimit s.memory
        ((fragments (s.pending.take count)).map (Frame.stored cfg))) = some d' ∧
      ∀ session, d'.pending 0 session =
        ofSession session ((fragments (s.pending.drop count)).map (Frame.stored cfg)) := by
  have hdeliverable :
      d.Deliverable 0 ((fragments (s.pending.take count)).map (Frame.stored cfg)) := by
    intro f _
    rw [hrefines.pending]
    exact (((List.take_prefix count s.pending).filter _).map _).filter _
  have hlength : ((fragments (s.pending.take count)).map (Frame.stored cfg)).length ≤
      fragmentLimit := by
    rw [List.length_map]
    exact hcount
  have hwindows : ∀ f ∈ (fragments (s.pending.take count)).map (Frame.stored cfg),
      f.fragment.payload s.memory = f.payload := by
    rw [List.forall_mem_map]
    intro f hf
    exact hrefines.inv.intact f (List.mem_of_mem_take (List.mem_of_mem_filter hf))
  refine ⟨_, if_pos ⟨hlength, hdeliverable, hwindows⟩, fun session => ?_⟩
  have hdeliver := Delivery.pending_deliver hdeliverable 0 session
  rw [if_pos rfl, hrefines.pending, ← List.take_append_drop count s.pending, fragments_append,
    List.map_append, ofSession_append] at hdeliver
  simp only [List.take_append_drop] at hdeliver
  exact List.append_cancel_left hdeliver

/-- Each step of the log is followed by the delivery system. -/
theorem refines_step {cfg : Config} {handler : Handler} {dcfg : Delivery.Config}
    {s s' : State} {d : Delivery.State} {a : Action} (hstream : a.OnStream (dcfg.stream 0))
    (hrefines : Refines cfg s d) (h : step cfg handler s a = some s') :
    ∃ d', StepMachine.run (Delivery.step dcfg) d (deliverySteps cfg s a) = some d' ∧
      Refines cfg s' d' := by
  obtain ⟨message, frames, rfl, hframes, hrun⟩ | ⟨f, rfl, hpadding, hpad⟩ |
    ⟨fragmentLimit, count, rfl, hcount, rfl⟩ | ⟨i, rfl, rfl⟩ := step_cases h
  · have hstored : ∀ f ∈ frames.map (Frame.stored cfg), f.stream = dcfg.stream 0 := by
      rw [List.forall_mem_map]
      exact hstream
    obtain ⟨d', hd', hpending⟩ := run_arrivals hstored d
    refine ⟨d', hd', inv_appends hrefines.inv (run_append_withoutViews hrun) fun _ _ => nofun, ?_⟩
    intro session
    rw [hpending, hrefines.pending, pending_appends hrun, fragments_append,
      fragments_eq_self hframes, List.map_append, ofSession_append]
  · -- padding is nothing to the delivery system
    have hrun : StepMachine.run (append cfg) s [f] = some s' :=
      StepMachine.run_cons_eq_some.mpr ⟨s', hpad, rfl⟩
    refine ⟨d, rfl, inv_appends hrefines.inv (run_append_withoutViews hrun) fun _ _ => nofun, ?_⟩
    intro session
    have hnone : fragments [f] = [] := by simp [fragments, hpadding]
    rw [hrefines.pending, pending_appends hrun, fragments_append, hnone, List.append_nil]
  · obtain ⟨d', hd', hpending⟩ := step_delivery_poll dcfg hrefines hcount
    -- the views that the poll hands out are dropped again
    have hinv := inv_withoutViews (inv_poll hrefines.inv count)
    exact ⟨d', StepMachine.run_cons_eq_some.mpr ⟨d', hd', rfl⟩, hinv, hpending⟩
  · exact ⟨d, rfl, hrefines.inv, hrefines.pending⟩

/-- What a run of the log is in the delivery system. -/
def deliveryRun (cfg : Config) (handler : Handler) (memory : Memory) (as : List Action) :
    List Delivery.Action :=
  StepMachine.translateRun (step cfg handler) (deliverySteps cfg) (init memory) as

/-- **Refinement.** Every run of the log is a run of the delivery system, which has the same
frames pending at its end. -/
theorem log_refines_delivery {cfg : Config} {handler : Handler} {dcfg : Delivery.Config}
    {memory : Memory} {t : State} {as : List Action}
    (hstream : ∀ a ∈ as, a.OnStream (dcfg.stream 0))
    (hrun : StepMachine.run (step cfg handler) (init memory) as = some t) :
    ∃ d, StepMachine.run (Delivery.step dcfg) Delivery.init
        (deliveryRun cfg handler memory as) = some d ∧ Refines cfg t d := by
  have hstep : ∀ s d a s', Action.OnStream (dcfg.stream 0) a → Refines cfg s d →
      step cfg handler s a = some s' →
      ∃ d', StepMachine.run (Delivery.step dcfg) d (deliverySteps cfg s a) = some d' ∧
        Refines cfg s' d' := by
    intro s d a s' hfirst hrefines h
    exact refines_step hfirst hrefines h
  exact StepMachine.run_refines hstep hstream hrun (refines_init cfg memory)

/-- A handler that reads the data while it is called reads the payloads of the frames that
were polled, one for each call, whatever becomes of the log later. -/
theorem read_while_polled {cfg : Config} {handler : Handler} (hhandler : handler.TakesData)
    {dcfg : Delivery.Config} {memory : Memory} {t : State} {as : List Action}
    (hstream : ∀ a ∈ as, a.OnStream (dcfg.stream 0))
    (hrun : StepMachine.run (step cfg handler) (init memory) as = some t) :
    ∃ outcomes, Delivery.pollOutcomes handler (deliveryRun cfg handler memory as) = .ok outcomes ∧
      (Delivery.observations outcomes).map Delivery.Observation.data =
        (Delivery.polled (deliveryRun cfg handler memory as)).map Stored.payload := by
  obtain ⟨d, hd, -⟩ := log_refines_delivery hstream hrun
  obtain ⟨outcomes, hok, -, hobserved⟩ :=
    Delivery.pollOutcomes_of_run (fun _ => none) (poll_data hhandler) hd
  refine ⟨outcomes, hok, ?_⟩
  rw [hobserved, List.map_map]
  rfl

/-- The subscription of the log is on stream `5`. -/
def lapSubscription : Delivery.Config := ⟨1376, 4096, fun _ => 5⟩

/-- The first round of the lap: one message is offered, and read by the handler of the poll. -/
theorem read_while_polled_lapRound :
    ∃ outcomes, Delivery.pollOutcomes dataHandler
        (deliveryRun (lapLog 1) dataHandler (fun _ => 0) (lapRound 0)) = .ok outcomes ∧
      (Delivery.observations outcomes).map Delivery.Observation.data =
        [List.replicate 32 1] := by
  have hstream : ∀ a ∈ lapRound 0, a.OnStream (lapSubscription.stream 0) := by
    simp [lapRound, Action.OnStream, lapFrame, lapSubscription]
  obtain ⟨outcomes, hok, hobserved⟩ :=
    read_while_polled dataHandler_takesData hstream (run_lapRound (by decide : 0 < 1) 0 fun _ => 0)
  exact ⟨outcomes, hok, hobserved⟩

end LogBuffer

end AeronPy
