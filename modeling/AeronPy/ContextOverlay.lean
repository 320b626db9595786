import AeronPy.Context

/-!
# What the client is connected with

`context::context` for any keyword arguments, of any types.

* `ContextSetting.Means`: what a Python object means as the value of a setting;
* `given`: what the keyword arguments give; `None` gives no directory;
* `context_exact`: the constructor makes a context exactly where everything that is given means
  something, and its settings are then what is given over the environment over the defaults;
  otherwise it raises for the first setting, in the order of the source, that something
  meaningless is given for.
-/

namespace AeronPy

variable {O : Type} [Pybind O]

namespace ContextSetting

/-- The key of a setting. -/
def key : ContextSetting → String
  | .aeronDir => "aeron_dir"
  | .mediaDriverTimeout => "media_driver_timeout"
  | .resourceLingerTimeout => "resource_linger_timeout"
  | .useConductorAgentInvoker => "user_conductor_agent_invoker"
  | .errorHandler => "error_handler"
  | .newPublicationHandler => "new_publication_handler"
  | .newExclusivePublicationHandler => "new_exclusive_publication_handler"
  | .newSubscriptionHandler => "new_subscription_handler"
  | .availableImageHandler => "available_image_handler"
  | .unavailableImageHandler => "unavailable_image_handler"

/-- The object means the value. A handler is a function, and means to be called with the
arguments of the event. -/
def Means : (i : ContextSetting) → O → i.Value O → Prop
  | .aeronDir, v, x => Pybind.castString v = some x
  | .mediaDriverTimeout, v, x | .resourceLingerTimeout, v, x => Pybind.castMilliseconds v = some x
  | .useConductorAgentInvoker, v, x => Pybind.castBool v = some x
  | .errorHandler, v, x => Pybind.isFunction v = true ∧
    x = some fun error => callPython v [.stdException error]
  | .newPublicationHandler, v, x | .newExclusivePublicationHandler, v, x =>
    Pybind.isFunction v = true ∧ x = some fun channel streamId sessionId correlationId =>
      callPython v
        [.string channel, .int streamId.toInt, .int sessionId.toInt, .int correlationId.toInt]
  | .newSubscriptionHandler, v, x => Pybind.isFunction v = true ∧
    x = some fun channel streamId correlationId =>
      callPython v [.string channel, .int streamId.toInt, .int correlationId.toInt]
  | .availableImageHandler, v, x | .unavailableImageHandler, v, x =>
    Pybind.isFunction v = true ∧ x = some fun image => callPython v [.image image]

/-- What is raised where an object means no value. -/
def refusal : ContextSetting → PyError
  | .aeronDir | .mediaDriverTimeout | .resourceLingerTimeout | .useConductorAgentInvoker =>
    .castError
  | .errorHandler => .typeError "error_handler has to be a function!"
  | .newPublicationHandler => .typeError "new_publication_handler has to be a function!"
  | .newExclusivePublicationHandler =>
    .typeError "new_exclusive_publication_handler has to be a function!"
  | .newSubscriptionHandler => .typeError "new_subscription_handler has to be a function!"
  | .availableImageHandler => .typeError "available_image_handler has to be a function!"
  | .unavailableImageHandler => .typeError "unavailable_image_handler has to be a function!"

end ContextSetting

namespace Context

/-- The settings in the order that the constructor goes through them. -/
def settings : List ContextSetting :=
  [.aeronDir, .mediaDriverTimeout, .resourceLingerTimeout, .useConductorAgentInvoker,
    .errorHandler, .newPublicationHandler, .newExclusivePublicationHandler,
    .newSubscriptionHandler, .availableImageHandler, .unavailableImageHandler]

/-- What the keyword arguments give under a key. -/
def given (args : Kwargs O) (key : String) : Option O :=
  (args.lookup key).filter fun v => !(key == "aeron_dir" && Pybind.isNone v)

theorem given_of_ne {key : String} (h : key ≠ "aeron_dir") (args : Kwargs O) :
    given args key = args.lookup key := by
  unfold given
  cases args.lookup key with
  | none => rfl
  | some v => simp [h]

/-- Something is given for the setting that means no value of it. -/
def Refused (args : Kwargs O) (i : ContextSetting) : Prop :=
  ∃ v, given args i.key = some v ∧ ∀ x, ¬i.Means v x

/-- The first setting that is refused, and what is raised for it. -/
def FirstRefused (args : Kwargs O) (e : PyError) : Prop :=
  ∃ before i later, settings = before ++ i :: later ∧ Refused args i ∧
    (∀ i' ∈ before, ¬Refused args i') ∧ e = i.refusal

/-! ## The branches -/

/-- The branch makes of what is given what it means, and raises where it means nothing. -/
structure Exact (b : Branch O) : Prop where
  key : b.key = b.setting.key
  skips : ∀ v, (b.key == "aeron_dir" && Pybind.isNone v) = true → b.convert v = .ok none
  reads : ∀ v x, (b.key == "aeron_dir" && Pybind.isNone v) = false → b.setting.Means v x →
    b.convert v = .ok (some x)
  refuses : ∀ v, (b.key == "aeron_dir" && Pybind.isNone v) = false →
    (∀ x, ¬b.setting.Means v x) → b.convert v = .error b.setting.refusal

/-- An object other than `None` is cast. -/
theorem aeronDir_convert {v : O} (h : Pybind.isNone v = false) :
    aeronDir.convert v = (property "aeron_dir" .aeronDir Pybind.castString : Branch O).convert v :=
  if_neg (by rw [h]; exact Bool.false_ne_true)

theorem exact_aeronDir : Exact (aeronDir (O := O)) where
  key := rfl
  skips := by
    intro v hnone
    have hv : Pybind.isNone v = true := hnone
    exact if_pos hv
  reads := by
    intro v x hsome hmeans
    have hv : Pybind.isNone v = false := hsome
    exact (aeronDir_convert hv).trans (property_convert_ok.mpr ⟨x, hmeans, rfl⟩)
  refuses := by
    intro v hsome hnot
    have hv : Pybind.isNone v = false := hsome
    have hcast : Pybind.castString v = none := Option.eq_none_iff_forall_ne_some.mpr hnot
    exact (aeronDir_convert hv).trans (property_convert_error.mpr ⟨hcast, rfl⟩)

/-- A branch that casts its value to what it means. -/
theorem exact_property {key : String} {setting : ContextSetting}
    {caster : O → Option (setting.Value O)} (hkey : key = setting.key)
    (hdir : (key == "aeron_dir") = false)
    (hmeans : ∀ v x, setting.Means v x ↔ caster v = some x)
    (hrefusal : setting.refusal = .castError) :
    Exact (property key setting caster) where
  key := hkey
  skips := by
    intro v hnone
    have hfalse : (key == "aeron_dir" && Pybind.isNone v) = true := hnone
    rw [hdir, Bool.false_and] at hfalse
    cases hfalse
  reads := by
    intro v x _ hx
    exact property_convert_ok.mpr ⟨x, (hmeans v x).mp hx, rfl⟩
  refuses := by
    intro v _ hnot
    have hcast : caster v = none := by
      apply Option.eq_none_iff_forall_ne_some.mpr
      intro x hx
      exact hnot x ((hmeans v x).mpr hx)
    exact property_convert_error.mpr ⟨hcast, hrefusal⟩

/-- A branch that stores a lambda over its value. -/
theorem exact_callback {key : String} {setting : ContextSetting} {forward : O → setting.Value O}
    (hkey : key = setting.key) (hdir : (key == "aeron_dir") = false)
    (hmeans : ∀ v x, setting.Means v x ↔ Pybind.isFunction v = true ∧ x = forward v)
    (hrefusal : setting.refusal = .typeError (key ++ " has to be a function!")) :
    Exact (callback key setting forward) where
  key := hkey
  skips := by
    intro v hnone
    have hfalse : (key == "aeron_dir" && Pybind.isNone v) = true := hnone
    rw [hdir, Bool.false_and] at hfalse
    cases hfalse
  reads := by
    intro v x _ hx
    obtain ⟨hfunction, rfl⟩ := (hmeans v x).mp hx
    exact if_pos hfunction
  refuses := by
    intro v _ hnot
    have hfunction : ¬Pybind.isFunction v = true := by
      intro hv
      exact hnot (forward v) ((hmeans v _).mpr ⟨hv, rfl⟩)
    exact (if_neg hfunction).trans (congrArg Except.error hrefusal.symm)

/-- All branches of the constructor are exact. -/
theorem exact_of_mem {b : Branch O} (hb : b ∈ contextProperties ++ callbacks) : Exact b := by
  simp only [contextProperties, callbacks, List.cons_append, List.nil_append, List.mem_cons,
    List.not_mem_nil, or_false] at hb
  rcases hb with rfl | rfl | rfl | rfl | rfl | rfl | rfl | rfl | rfl | rfl
  · exact exact_aeronDir
  · exact exact_property rfl rfl (fun v x => Iff.rfl) rfl
  · exact exact_property rfl rfl (fun v x => Iff.rfl) rfl
  · exact exact_property rfl rfl (fun v x => Iff.rfl) rfl
  · exact exact_callback rfl rfl (fun v x => Iff.rfl) rfl
  · exact exact_callback rfl rfl (fun v x => Iff.rfl) rfl
  · exact exact_callback rfl rfl (fun v x => Iff.rfl) rfl
  · exact exact_callback rfl rfl (fun v x => Iff.rfl) rfl
  · exact exact_callback rfl rfl (fun v x => Iff.rfl) rfl
  · exact exact_callback rfl rfl (fun v x => Iff.rfl) rfl

theorem map_setting :
    (contextProperties (O := O) ++ callbacks).map KeyedOverlay.Branch.setting = settings := rfl

/-! ## The constructor -/

section

variable {args : Kwargs O} {b : Branch O}

/-- Nothing is given to the branch. -/
theorem value_of_given_none (hb : Exact b) (h : given args b.key = none) :
    b.value args.lookup = .ok none := by
  cases hv : args.lookup b.key with
  | none => exact KeyedOverlay.Branch.value_of_none hv
  | some v =>
    rw [given, hv, Option.filter_eq_none_iff] at h
    have hskips := h v rfl
    rw [Bool.not_eq_true, Bool.not_eq_false'] at hskips
    rw [KeyedOverlay.Branch.value_of_some hv]
    exact hb.skips v hskips

/-- What is given to the branch is what it converts. -/
theorem value_of_given_some {v : O} (h : given args b.key = some v) :
    b.value args.lookup = b.convert v ∧ (b.key == "aeron_dir" && Pybind.isNone v) = false := by
  obtain ⟨hv, hskips⟩ := Option.filter_eq_some_iff.mp h
  rw [Bool.not_eq_true'] at hskips
  exact ⟨KeyedOverlay.Branch.value_of_some hv, hskips⟩

/-- A branch fails where its setting is refused, and raises the refusal. -/
theorem value_of_refused (hb : Exact b) (h : Refused args b.setting) :
    b.value args.lookup = .error b.setting.refusal := by
  obtain ⟨v, hv, hnot⟩ := h
  rw [← hb.key] at hv
  obtain ⟨hvalue, hskips⟩ := value_of_given_some hv
  rw [hvalue]
  exact hb.refuses v hskips hnot

/-- Where its setting is not refused it does not fail: it sets what is given. -/
theorem value_of_not_refused (hb : Exact b) (h : ¬Refused args b.setting) :
    ∃ o, b.value args.lookup = .ok o ∧
      ∀ (s t : AeronContext O), t b.setting = o.getD (s b.setting) ↔
        KeyedOverlay.Faithful ContextSetting.key ContextSetting.Means (given args) s t
          b.setting := by
  unfold KeyedOverlay.Faithful
  rw [← hb.key]
  cases hv : given args b.key with
  | none => exact ⟨none, value_of_given_none hb hv, fun s t => Iff.rfl⟩
  | some v =>
    obtain ⟨hvalue, hskips⟩ := value_of_given_some hv
    have hmeans : ∃ x, b.setting.Means v x := by
      by_contra hnone
      exact h ⟨v, hb.key ▸ hv, not_exists.mp hnone⟩
    obtain ⟨x, hx⟩ := hmeans
    refine ⟨some x, hvalue.trans (hb.reads v x hskips hx), fun s t => ?_⟩
    constructor
    · intro ht
      have hset : t b.setting = x := ht
      show b.setting.Means v (t b.setting)
      rw [hset]
      exact hx
    · intro ht
      -- an object means at most one value
      have hsame := (hb.reads v _ hskips ht).symm.trans (hb.reads v x hskips hx)
      exact Option.some.inj (Except.ok.inj hsame)

/-- The branches that do not fail are those whose setting is not refused. -/
theorem exists_value_iff (hb : Exact b) :
    (∃ o, b.value args.lookup = .ok o) ↔ ¬Refused args b.setting := by
  constructor
  · intro hvalue hrefused
    obtain ⟨o, ho⟩ := hvalue
    rw [value_of_refused hb hrefused] at ho
    cases ho
  · intro hnot
    obtain ⟨o, hvalue, -⟩ := value_of_not_refused hb hnot
    exact ⟨o, hvalue⟩

theorem not_refused_of_faithful {s t : AeronContext O} {i : ContextSetting}
    (h : KeyedOverlay.Faithful ContextSetting.key ContextSetting.Means (given args) s t i) :
    ¬Refused args i := by
  intro hrefused
  obtain ⟨v, hv, hnone⟩ := hrefused
  rw [KeyedOverlay.Faithful, hv] at h
  exact hnone _ h

theorem mem_settings (i : ContextSetting) : i ∈ settings := by
  cases i <;> decide

variable {defaults : ContextDefaults} {env : Option StdString}

/-- The contexts that the constructor makes. -/
theorem context_eq_ok_iff {ctx : AeronContext O} :
    context defaults env args = .ok ctx ↔
      ∀ i, KeyedOverlay.Faithful ContextSetting.key ContextSetting.Means (given args)
        (environment env defaults.context) ctx i := by
  unfold context
  rw [KeyedOverlay.overlay_eq_ok_iff nodup_settings]
  constructor
  · intro hoverlays i
    have hi := mem_settings i
    rw [← map_setting (O := O)] at hi
    obtain ⟨b, hb, rfl⟩ := List.mem_map.mp hi
    obtain ⟨o, hvalue, ht⟩ := hoverlays.sets b hb
    have hnot := (exists_value_iff (exact_of_mem hb)).mp ⟨o, hvalue⟩
    obtain ⟨o', hvalue', hiff⟩ := value_of_not_refused (exact_of_mem hb) hnot
    rw [hvalue, Except.ok.injEq] at hvalue'
    subst hvalue'
    exact (hiff _ ctx).mp ht
  · intro hall
    constructor
    · intro b hb
      have hnot := not_refused_of_faithful (hall b.setting)
      obtain ⟨o, hvalue, hiff⟩ := value_of_not_refused (exact_of_mem hb) hnot
      exact ⟨o, hvalue, (hiff _ ctx).mpr (hall b.setting)⟩
    · intro i hi
      rw [map_setting] at hi
      exact absurd (mem_settings i) hi

/-- What the constructor raises. -/
theorem context_eq_error_iff {e : PyError} :
    context defaults env args = .error e ↔ FirstRefused args e := by
  unfold context
  rw [KeyedOverlay.overlay_eq_error_iff, KeyedOverlay.failure_eq_some_iff]
  constructor
  · intro h
    obtain ⟨before, b, later, hsplit, herror, hbefore⟩ := h
    have hmem : ∀ b' ∈ before ++ b :: later, Exact b' := by
      intro b' hb'
      rw [← hsplit] at hb'
      exact exact_of_mem hb'
    have hb : Exact b := hmem b (List.mem_append_right before List.mem_cons_self)
    have hrefused : Refused args b.setting := by
      by_contra hnot
      obtain ⟨o, ho⟩ := (exists_value_iff hb).mpr hnot
      rw [herror] at ho
      cases ho
    rw [value_of_refused hb hrefused, Except.error.injEq] at herror
    refine ⟨before.map KeyedOverlay.Branch.setting, b.setting,
      later.map KeyedOverlay.Branch.setting, ?_, hrefused, ?_, herror.symm⟩
    · rw [← map_setting (O := O), hsplit, List.map_append, List.map_cons]
    · rw [List.forall_mem_map]
      intro b' hb'
      exact (exists_value_iff (hmem b' (List.mem_append_left _ hb'))).mp (hbefore b' hb')
  · intro h
    obtain ⟨before, i, later, hsplit, hrefused, hbefore, rfl⟩ := h
    rw [← map_setting (O := O), List.map_eq_append_iff] at hsplit
    obtain ⟨before', rest, hbranches, rfl, hrest⟩ := hsplit
    obtain ⟨b, later', rfl, rfl, rfl⟩ := List.map_eq_cons_iff.mp hrest
    have hmem : ∀ b' ∈ before' ++ b :: later', Exact b' := by
      intro b' hb'
      rw [← hbranches] at hb'
      exact exact_of_mem hb'
    refine ⟨before', b, later', hbranches, ?_, ?_⟩
    · exact value_of_refused (hmem b (List.mem_append_right before' List.mem_cons_self)) hrefused
    · intro b' hb'
      apply (exists_value_iff (hmem b' (List.mem_append_left _ hb'))).mpr
      exact hbefore b'.setting (List.mem_map_of_mem hb')

end

/-- **The constructor.** Whatever is passed: it makes the context in which every setting is what
is given for it, over the environment, over the defaults; it makes none exactly if something
means nothing, and then raises what the first such setting is refused with. -/
theorem context_exact (defaults : ContextDefaults) (env : Option StdString) (args : Kwargs O) :
    (∀ ctx, context defaults env args = .ok ctx ↔
      ∀ i, KeyedOverlay.Faithful ContextSetting.key ContextSetting.Means (given args)
        (environment env defaults.context) ctx i) ∧
      ∀ e, context defaults env args = .error e ↔ FirstRefused args e :=
  ⟨fun _ => context_eq_ok_iff, fun _ => context_eq_error_iff⟩

end Context

end AeronPy
