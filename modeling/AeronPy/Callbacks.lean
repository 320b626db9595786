import AeronPy.Context

/-!
# Delivery of client events

`dispatch_eq` says what becomes of an event in terms of the keyword arguments alone: the
handler given for its kind is called with the event's own arguments.

`delivers_iff`: over every sequence of events the Python calls are those that the handlers
given stand for, and none fails on the way to its handler, iff no error meets an
`error_handler`. pybind11 has no Python class for the `std::exception` of an error.
-/

namespace AeronPy

namespace Context

variable {O : Type} {args : Kwargs O} {ctx : AeronContext O}

/-- The Python call that an event stands for. -/
def expectedCall (args : Kwargs O) (event : ClientEvent) : Option (PyCall O) :=
  (args.lookup event.handlerKey).map fun handler => ⟨handler, event.arguments⟩

/-- The calls that entered Python functions, over a sequence of events. -/
def pythonCalls (ctx : AeronContext O) (events : List ClientEvent) : List (PyCall O) :=
  events.filterMap fun event => (dispatch ctx event).bind Except.toOption

/-- The events of a sequence are delivered to the handlers given for them. -/
structure Delivers (args : Kwargs O) (ctx : AeronContext O) (events : List ClientEvent) :
    Prop where
  calls : pythonCalls ctx events = events.filterMap (expectedCall args)
  entered : ∀ event ∈ events, ∀ e, dispatch ctx event ≠ some (.error e)

theorem delivers_nil (args : Kwargs O) (ctx : AeronContext O) : Delivers args ctx [] :=
  ⟨rfl, nofun⟩

/-- One event more. -/
theorem delivers_cons {event : ClientEvent} {events : List ClientEvent}
    (hevent : dispatch ctx event = (expectedCall args event).map .ok)
    (hevents : Delivers args ctx events) : Delivers args ctx (event :: events) where
  calls := by
    have htail := hevents.calls
    rw [pythonCalls] at htail
    rw [pythonCalls, List.filterMap_cons, List.filterMap_cons, hevent, htail]
    cases expectedCall args event <;> rfl
  entered := by
    intro event' hmem e he
    rcases List.mem_cons.mp hmem with rfl | hmem
    · rw [hevent] at he
      cases hcall : expectedCall args event' with
      | none =>
        rw [hcall] at he
        cases he
      | some call =>
        rw [hcall] at he
        cases he
    · exact hevents.entered event' hmem e he

variable [Pybind O] {defaults : ContextDefaults} {env : Option StdString}

/-- Every event goes to the handler given for its kind, with its own arguments. -/
theorem dispatch_eq (h : context defaults env args = .ok ctx) (event : ClientEvent) :
    dispatch ctx event =
      (args.lookup event.handlerKey).map fun handler => callPython handler event.arguments := by
  -- what the lookup of the keyword gives decides what is stored
  have hstored : ∀ {key : String} {setting : ContextSetting} {forward : O → setting.Value O},
      callback key setting forward ∈ callbacks (O := O) → setting ≠ .aeronDir →
      ctx setting = ((args.lookup key).map forward).getD (defaults.context setting) :=
    fun hb hne => (installed h hb).trans (congrArg _ (environment_of_ne hne env _))
  cases event with
  | error what =>
    have hset := hstored (show errorHandler ∈ callbacks by simp [callbacks]) nofun
    rw [dispatch, hset, ClientEvent.handlerKey]
    cases args.lookup "error_handler" <;> rfl
  | newPublication channel streamId sessionId correlationId =>
    have hset := hstored (show newPublicationHandler ∈ callbacks by simp [callbacks]) nofun
    rw [dispatch, hset, ClientEvent.handlerKey]
    cases args.lookup "new_publication_handler" <;> rfl
  | newExclusivePublication channel streamId sessionId correlationId =>
    have hset := hstored (show newExclusivePublicationHandler ∈ callbacks by simp [callbacks]) nofun
    rw [dispatch, hset, ClientEvent.handlerKey]
    cases args.lookup "new_exclusive_publication_handler" <;> rfl
  | newSubscription channel streamId correlationId =>
    have hset := hstored (show newSubscriptionHandler ∈ callbacks by simp [callbacks]) nofun
    rw [dispatch, hset, ClientEvent.handlerKey]
    cases args.lookup "new_subscription_handler" <;> rfl
  | availableImage image =>
    have hset := hstored (show availableImageHandler ∈ callbacks by simp [callbacks]) nofun
    rw [dispatch, hset, ClientEvent.handlerKey]
    cases args.lookup "available_image_handler" <;> rfl
  | unavailableImage image =>
    have hset := hstored (show unavailableImageHandler ∈ callbacks by simp [callbacks]) nofun
    rw [dispatch, hset, ClientEvent.handlerKey]
    cases args.lookup "unavailable_image_handler" <;> rfl

/-- Every argument of an event has a Python value, unless it is an error. -/
theorem convertible_arguments {event : ClientEvent} (h : ¬event.IsError) :
    ∀ arg ∈ event.arguments, arg.convertible = true := by
  intro arg harg
  rw [convertible_iff]
  rintro what rfl
  cases event with
  | error what' => exact h ⟨what', rfl⟩
  | _ => simp [ClientEvent.arguments] at harg

/-- What becomes of an event that is not an error. -/
theorem dispatch_of_not_isError (h : context defaults env args = .ok ctx) {event : ClientEvent}
    (herror : ¬event.IsError) : dispatch ctx event = (expectedCall args event).map .ok := by
  rw [dispatch_eq h, expectedCall, Option.map_map]
  refine Option.map_congr fun handler _ => ?_
  exact callPython_of_convertible (convertible_arguments herror) handler

/-- An error never enters its handler. -/
theorem dispatch_error (h : context defaults env args = .ok ctx) (what : String) :
    dispatch ctx (.error what) =
      (args.lookup "error_handler").map fun _ => .error .castError := by
  rw [dispatch_eq h]
  refine Option.map_congr fun handler _ => ?_
  exact callPython_of_not_convertible (List.mem_singleton.mpr rfl) rfl handler

/-- The events that are delivered as they should be: all but errors with a handler. -/
theorem dispatch_eq_expected (h : context defaults env args = .ok ctx) {event : ClientEvent}
    (hmeets : event.IsError → args.lookup "error_handler" = none) :
    dispatch ctx event = (expectedCall args event).map .ok := by
  by_cases herror : event.IsError
  · obtain ⟨what, rfl⟩ := herror
    have hnone := hmeets ⟨what, rfl⟩
    rw [dispatch_error h, expectedCall, ClientEvent.handlerKey, hnone]
    rfl
  · exact dispatch_of_not_isError h herror

/-- Exactly the sequences in which no error meets an `error_handler` are delivered. -/
theorem delivers_iff (h : context defaults env args = .ok ctx) (events : List ClientEvent) :
    Delivers args ctx events ↔
      args.lookup "error_handler" = none ∨ ∀ event ∈ events, ¬event.IsError := by
  constructor
  · intro hdelivers
    -- an error that meets a handler fails on the way to it
    refine or_iff_not_imp_left.mpr fun hhandler event hmem ⟨what, herror⟩ => ?_
    obtain ⟨handler, hlookup⟩ := Option.ne_none_iff_exists'.mp hhandler
    refine hdelivers.entered event hmem .castError ?_
    rw [herror, dispatch_error h, hlookup]
    rfl
  · intro hmeets
    induction events with
    | nil => exact delivers_nil args ctx
    | cons event events ih =>
      have hevent : event.IsError → args.lookup "error_handler" = none := fun herror =>
        hmeets.resolve_right fun hall => hall event List.mem_cons_self herror
      -- the events that are left meet the condition as well
      have htail : args.lookup "error_handler" = none ∨ ∀ event ∈ events, ¬event.IsError :=
        hmeets.imp_right fun hall event' hmem => hall event' (List.mem_cons_of_mem _ hmem)
      exact delivers_cons (dispatch_eq_expected h hevent) (ih htail)

/-- The defaults of the Aeron client. -/
def defaultContext : ContextDefaults := ⟨"/dev/shm/aeron-default".toUTF8.toList, 10000, 5000, false⟩

/-- `Context(available_image_handler=on_image)` and one event with and one without a handler. -/
theorem delivers_iff_image :
    ∃ ctx, context defaultContext none
        (AList.singleton "available_image_handler" (PyValue.function "on_image")) = .ok ctx ∧
      Delivers (AList.singleton "available_image_handler" (PyValue.function "on_image")) ctx
        [.newSubscription "aeron:ipc" 1 7, .availableImage ⟨7, 3, false, false⟩] :=
  ⟨_, rfl, (delivers_iff rfl _).mpr (Or.inl rfl)⟩

/-- `Context(error_handler=on_error)`: an error fails before `on_error` is entered. -/
theorem error_handler_not_entered :
    ∃ ctx, context defaultContext none
        (AList.singleton "error_handler" (PyValue.function "on_error")) = .ok ctx ∧
      dispatch ctx (.error "driver timeout") = some (.error .castError) ∧
      ¬Delivers (AList.singleton "error_handler" (PyValue.function "on_error")) ctx
        [.error "driver timeout"] := by
  refine ⟨_, rfl, rfl, fun hdelivers => ?_⟩
  exact hdelivers.entered (.error "driver timeout") (List.mem_singleton.mpr rfl) .castError rfl

end Context

end AeronPy
