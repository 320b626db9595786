import AeronPy.Data
import AeronPy.Kwargs

/-!
# The client constructor

`context::context` makes the `aeron::Context` that `Aeron::connect` is called with, from its
defaults, the `AERON_DIR` variable and the keyword arguments. Six of these are handlers: each
is stored as a lambda that the client calls for the events of one kind, and that calls the
Python function with its own arguments.

* `Context.context`: the constructor, and `installed` for the handlers it stores;
* `ClientEvent`, `Context.dispatch`: the events of the client, and the handlers it calls.
-/

namespace AeronPy

variable {O : Type}

/-! ## Calls of Python functions -/

/-- One call that entered a Python function. -/
structure PyCall (O : Type) where
  function : O
  args : List CppValue
deriving DecidableEq, Repr

/-- `handler(args...)`: the arguments are converted before the function is entered. -/
def callPython (handler : O) (args : List CppValue) : Except PyError (PyCall O) := do
  let converted ← convertArguments args
  return ⟨handler, converted⟩

theorem callPython_of_convertible {args : List CppValue}
    (h : ∀ arg ∈ args, arg.convertible = true) (handler : O) :
    callPython handler args = .ok ⟨handler, args⟩ := by
  rw [callPython, convertArguments, if_pos (List.all_eq_true.mpr h)]
  rfl

theorem callPython_of_not_convertible {args : List CppValue} {arg : CppValue} (hmem : arg ∈ args)
    (h : arg.convertible = false) (handler : O) :
    callPython handler args = .error .castError := by
  have hall : ¬args.all CppValue.convertible = true := fun hall =>
    absurd (List.all_eq_true.mp hall arg hmem) (by rw [h]; decide)
  rw [callPython, convertArguments, if_neg hall]
  rfl

/-! ## Settings -/

/-- The settings of `aeron::Context`. -/
inductive ContextSetting where
  | aeronDir
  | mediaDriverTimeout
  | resourceLingerTimeout
  | useConductorAgentInvoker
  | errorHandler
  | newPublicationHandler
  | newExclusivePublicationHandler
  | newSubscriptionHandler
  | availableImageHandler
  | unavailableImageHandler
deriving DecidableEq, Repr

/-- What a lambda that forwards to Python comes to. -/
abbrev Forwarded (O : Type) := Except PyError (PyCall O)

/-- The type of a setting. A handler is a lambda over a Python function, or `none` for the one
Aeron installs by default, which calls no Python. -/
abbrev ContextSetting.Value (O : Type) : ContextSetting → Type
  | .aeronDir => StdString
  | .mediaDriverTimeout | .resourceLingerTimeout => Int64
  | .useConductorAgentInvoker => Bool
  | .errorHandler => Option (String → Forwarded O)
  | .newPublicationHandler | .newExclusivePublicationHandler =>
    Option (String → Int32 → Int32 → Int64 → Forwarded O)
  | .newSubscriptionHandler => Option (String → Int32 → Int64 → Forwarded O)
  | .availableImageHandler | .unavailableImageHandler => Option (Image → Forwarded O)

/-- `aeron::Context`. -/
abbrev AeronContext (O : Type) := ∀ i : ContextSetting, i.Value O

/-- What a default-constructed `aeron::Context` holds, besides its own handlers. -/
structure ContextDefaults where
  aeronDir : StdString
  mediaDriverTimeout : Int64
  resourceLingerTimeout : Int64
  useConductorAgentInvoker : Bool

/-- `aeron::Context()`. -/
def ContextDefaults.context (defaults : ContextDefaults) : AeronContext O
  | .aeronDir => defaults.aeronDir
  | .mediaDriverTimeout => defaults.mediaDriverTimeout
  | .resourceLingerTimeout => defaults.resourceLingerTimeout
  | .useConductorAgentInvoker => defaults.useConductorAgentInvoker
  | .errorHandler | .newPublicationHandler | .newExclusivePublicationHandler
  | .newSubscriptionHandler | .availableImageHandler | .unavailableImageHandler => none

/-! ## `context::context` -/

namespace Context

abbrev Branch (O : Type) := ArgBranch O ContextSetting (ContextSetting.Value O)

/-- `if (auto default_aeron_dir = getenv("AERON_DIR"))`. -/
def environment (env : Option StdString) (context : AeronContext O) : AeronContext O :=
  environmentDefault .aeronDir env context

theorem environment_of_ne {i : ContextSetting} (h : i ≠ .aeronDir) (env : Option StdString)
    (context : AeronContext O) : environment env context i = context i := by
  rw [environment, environmentDefault_of_ne h]

variable [Pybind O]

/-- `None` leaves the directory as it is. -/
def aeronDir : Branch O where
  key := "aeron_dir"
  setting := .aeronDir
  convert v := if Pybind.isNone v then .ok none else (cast Pybind.castString v).map some

def mediaDriverTimeout : Branch O :=
  property "media_driver_timeout" .mediaDriverTimeout Pybind.castMilliseconds

def resourceLingerTimeout : Branch O :=
  property "resource_linger_timeout" .resourceLingerTimeout Pybind.castMilliseconds

def useConductorAgentInvoker : Branch O :=
  property "user_conductor_agent_invoker" .useConductorAgentInvoker Pybind.castBool

/-- A branch that stores a lambda over a Python function. -/
def callback (key : String) (setting : ContextSetting) (forward : O → setting.Value O) :
    Branch O where
  key
  setting
  convert handler :=
    if Pybind.isFunction handler then .ok (some (forward handler))
    else .error (.typeError (key ++ " has to be a function!"))

def errorHandler : Branch O :=
  callback "error_handler" .errorHandler fun handler => some fun error =>
    callPython handler [.stdException error]

def newPublicationHandler : Branch O :=
  callback "new_publication_handler" .newPublicationHandler fun handler =>
    some fun channel streamId sessionId correlationId =>
      callPython handler
        [.string channel, .int streamId.toInt, .int sessionId.toInt, .int correlationId.toInt]

def newExclusivePublicationHandler : Branch O :=
  callback "new_exclusive_publication_handler" .newExclusivePublicationHandler fun handler =>
    some fun channel streamId sessionId correlationId =>
      callPython handler
        [.string channel, .int streamId.toInt, .int sessionId.toInt, .int correlationId.toInt]

def newSubscriptionHandler : Branch O :=
  callback "new_subscription_handler" .newSubscriptionHandler fun handler =>
    some fun channel streamId correlationId =>
      callPython handler [.string channel, .int streamId.toInt, .int correlationId.toInt]

def availableImageHandler : Branch O :=
  callback "available_image_handler" .availableImageHandler fun handler => some fun image =>
    callPython handler [.image image]

def unavailableImageHandler : Branch O :=
  callback "unavailable_image_handler" .unavailableImageHandler fun handler => some fun image =>
    callPython handler [.image image]

/-- The branches under `// context properties`. -/
def contextProperties : List (Branch O) :=
  [aeronDir, mediaDriverTimeout, resourceLingerTimeout, useConductorAgentInvoker]

/-- The branches under `// callbacks`. -/
def callbacks : List (Branch O) :=
  [errorHandler, newPublicationHandler, newExclusivePublicationHandler, newSubscriptionHandler,
    availableImageHandler, unavailableImageHandler]

/-- The constructor, up to the context that `Aeron::connect` is called with. -/
def context (defaults : ContextDefaults) (env : Option StdString) (args : Kwargs O) :
    Except PyError (AeronContext O) :=
  KeyedOverlay.overlay (contextProperties ++ callbacks) args.lookup
    (environment env defaults.context)

/-! ## Installed handlers -/

theorem nodup_settings :
    ((contextProperties (O := O) ++ callbacks).map KeyedOverlay.Branch.setting).Nodup := by
  change [ContextSetting.aeronDir, .mediaDriverTimeout, .resourceLingerTimeout,
    .useConductorAgentInvoker, .errorHandler, .newPublicationHandler,
    .newExclusivePublicationHandler, .newSubscriptionHandler, .availableImageHandler,
    .unavailableImageHandler].Nodup
  decide

theorem callback_convert_ok {key : String} {setting : ContextSetting}
    {forward : O → setting.Value O} {v : O} {o : Option (setting.Value O)}
    (h : (callback key setting forward).convert v = .ok o) : o = some (forward v) := by
  by_cases hfunction : Pybind.isFunction v = true
  · simp only [callback, if_pos hfunction, Except.ok.injEq] at h
    exact h.symm
  · simp only [callback, if_neg hfunction] at h
    cases h

variable {defaults : ContextDefaults} {env : Option StdString} {args : Kwargs O}
  {ctx : AeronContext O}

/-- A handler that was given is stored as its lambda, and otherwise the default stays. -/
theorem installed (h : context defaults env args = .ok ctx) {key : String}
    {setting : ContextSetting} {forward : O → setting.Value O}
    (hb : callback key setting forward ∈ callbacks (O := O)) :
    ctx setting = ((args.lookup key).map forward).getD
      (environment env defaults.context setting) := by
  -- no other branch has the setting
  obtain ⟨o, hvalue, ht⟩ := ((KeyedOverlay.overlay_eq_ok_iff nodup_settings).mp h).sets _
    (List.mem_append_right contextProperties hb)
  change ctx setting = o.getD (environment env defaults.context setting) at ht
  rw [ht]
  cases hkey : args.lookup key with
  | none =>
    rw [KeyedOverlay.Branch.value_of_none hkey, Except.ok.injEq] at hvalue
    rw [← hvalue]
    rfl
  | some v =>
    rw [KeyedOverlay.Branch.value_of_some hkey] at hvalue
    rw [callback_convert_ok hvalue]
    rfl

/-! ## Events -/

/-- The events of the client, with the arguments that Aeron calls the handler with. -/
inductive ClientEvent where
  | error (what : String)
  | newPublication (channel : String) (streamId sessionId : Int32) (correlationId : Int64)
  | newExclusivePublication (channel : String) (streamId sessionId : Int32)
      (correlationId : Int64)
  | newSubscription (channel : String) (streamId : Int32) (correlationId : Int64)
  | availableImage (image : Image)
  | unavailableImage (image : Image)
deriving DecidableEq, Repr

namespace ClientEvent

/-- The keyword of the handler for events of this kind. -/
def handlerKey : ClientEvent → String
  | .error .. => "error_handler"
  | .newPublication .. => "new_publication_handler"
  | .newExclusivePublication .. => "new_exclusive_publication_handler"
  | .newSubscription .. => "new_subscription_handler"
  | .availableImage .. => "available_image_handler"
  | .unavailableImage .. => "unavailable_image_handler"

/-- The arguments of the event. -/
def arguments : ClientEvent → List CppValue
  | .error what => [.stdException what]
  | .newPublication channel streamId sessionId correlationId
  | .newExclusivePublication channel streamId sessionId correlationId =>
    [.string channel, .int streamId.toInt, .int sessionId.toInt, .int correlationId.toInt]
  | .newSubscription channel streamId correlationId =>
    [.string channel, .int streamId.toInt, .int correlationId.toInt]
  | .availableImage image | .unavailableImage image => [.image image]

/-- The event reports an error. -/
def IsError (event : ClientEvent) : Prop := ∃ what, event = .error what

end ClientEvent

/-- The client calls the handler installed for the kind of event. -/
def dispatch (ctx : AeronContext O) : ClientEvent → Option (Forwarded O)
  | .error what => (ctx .errorHandler).map fun handler => handler what
  | .newPublication channel streamId sessionId correlationId =>
    (ctx .newPublicationHandler).map fun handler =>
      handler channel streamId sessionId correlationId
  | .newExclusivePublication channel streamId sessionId correlationId =>
    (ctx .newExclusivePublicationHandler).map fun handler =>
      handler channel streamId sessionId correlationId
  | .newSubscription channel streamId correlationId =>
    (ctx .newSubscriptionHandler).map fun handler => handler channel streamId correlationId
  | .availableImage image => (ctx .availableImageHandler).map fun handler => handler image
  | .unavailableImage image => (ctx .unavailableImageHandler).map fun handler => handler image

end Context

end AeronPy
