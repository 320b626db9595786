import AeronPy.ArchiveOverlay
import AeronPy.Callbacks

/-!
# `None` and omission

The stubs document `None` as the default of the keywords. `none_eq_omission_iff` says exactly
when passing `None` for keywords that are absent has the outcome of leaving them out: of all
the branches only that of the client's `aeron_dir` treats `None` apart.
-/

namespace AeronPy

open KeyedOverlay (Branch Rejects failure overlay)

/-- The same exception class, or the same result. -/
def SameOutcome {α : Type} (r r' : Except PyError α) : Prop :=
  r.mapError PyError.exceptionClass = r'.mapError PyError.exceptionClass

theorem SameOutcome.of_eq {α : Type} {r r' : Except PyError α} (h : r = r') : SameOutcome r r' :=
  congrArg _ h

theorem sameOutcome_error {α : Type} {e e' : PyError} :
    SameOutcome (.error e : Except PyError α) (.error e') ↔
      e.exceptionClass = e'.exceptionClass :=
  Except.error.injEq _ _ ▸ Iff.rfl

theorem sameOutcome_ok {α : Type} {x y : α} : SameOutcome (.ok x) (.ok y) ↔ x = y :=
  Except.ok.injEq _ _ ▸ Iff.rfl

/-- The call raises an exception of the class. -/
def Raises {α : Type} (r : Except PyError α) (c : ExceptionClass) : Prop :=
  ∃ e, r = .error e ∧ e.exceptionClass = c

theorem not_raises_ok {α : Type} {x : α} {c : ExceptionClass} : ¬Raises (.ok x) c :=
  fun ⟨_, h, _⟩ => nomatch h

/-- A call has the outcome of one that raises iff it raises the same class. -/
theorem sameOutcome_iff_raises {α : Type} {r r' : Except PyError α} {c : ExceptionClass}
    (h : Raises r' c) : SameOutcome r' r ↔ Raises r c := by
  obtain ⟨e', rfl, rfl⟩ := h
  cases r with
  | error e =>
    rw [sameOutcome_error]
    constructor
    · intro hclass
      exact ⟨e, rfl, hclass.symm⟩
    · rintro ⟨e₁, he₁, hclass⟩
      rw [Except.error.injEq] at he₁
      exact (he₁ ▸ hclass).symm
  | ok x => exact iff_of_false nofun not_raises_ok

/-! ## One more `None` -/

section WithNone

variable {O ι : Type} {σ : ι → Type} {args : Kwargs O} {keys : List String}

/-- Where every branch raises the same class of exception, the first failure is of it. -/
theorem exists_failure {branches : List (ArgBranch O ι σ)} {c : ExceptionClass}
    (hclass : ∀ b ∈ branches, ∀ v e, b.convert v = .error e → e.exceptionClass = c)
    (h : Rejects branches args.lookup) :
    ∃ e, failure branches args.lookup = some e ∧ e.exceptionClass = c := by
  have hsome : failure branches args.lookup ≠ none := fun hnone =>
    KeyedOverlay.failure_eq_none_iff_not_rejects.mp hnone h
  obtain ⟨e, he⟩ := Option.ne_none_iff_exists'.mp hsome
  obtain ⟨b, hb, hvalue⟩ := KeyedOverlay.exists_of_failure he
  refine ⟨e, he, ?_⟩
  cases hkey : args.lookup b.key with
  | none =>
    rw [Branch.value_of_none hkey] at hvalue
    cases hvalue
  | some v =>
    rw [Branch.value_of_some hkey] at hvalue
    exact hclass b hb v e hvalue

theorem property_class {key : String} {setting : ι} {caster : O → Option (σ setting)} {v : O}
    {e : PyError} (h : (property key setting caster).convert v = .error e) :
    e.exceptionClass = .runtimeError := by
  rw [(property_convert_error.mp h).2]
  rfl

variable [Pybind O]

theorem value_withNone_of_mem {b : ArgBranch O ι σ} (h : b.key ∈ keys) :
    b.value (args.withNone keys).lookup = b.convert Pybind.pyNone :=
  Branch.value_of_some (by rw [Kwargs.lookup_withNone, if_pos h])

theorem value_withNone_of_not_mem {b : ArgBranch O ι σ} (h : b.key ∉ keys) :
    b.value (args.withNone keys).lookup = b.value args.lookup :=
  Branch.value_congr (by rw [Kwargs.lookup_withNone, if_neg h])

/-- `None` for keys that were absent adds the rejections of `None` to the others. -/
theorem rejects_withNone_iff (habsent : ∀ key ∈ keys, args.lookup key = none)
    {branches : List (ArgBranch O ι σ)} :
    Rejects branches (args.withNone keys).lookup ↔ Rejects branches args.lookup ∨
      ∃ b ∈ branches, b.key ∈ keys ∧ ∃ e, b.convert Pybind.pyNone = .error e := by
  constructor
  · rintro ⟨b, hb, e, he⟩
    by_cases hkey : b.key ∈ keys
    · rw [value_withNone_of_mem hkey] at he
      exact Or.inr ⟨b, hb, hkey, e, he⟩
    · rw [value_withNone_of_not_mem hkey] at he
      exact Or.inl ⟨b, hb, e, he⟩
  · rintro (⟨b, hb, e, he⟩ | ⟨b, hb, hkey, e, he⟩)
    · refine ⟨b, hb, e, ?_⟩
      -- a branch that fails without the new keys does not read one of them
      have hkey : b.key ∉ keys := by
        intro hkey
        rw [Branch.value_of_none (habsent _ hkey)] at he
        cases he
      rw [value_withNone_of_not_mem hkey, he]
    · exact ⟨b, hb, e, (value_withNone_of_mem hkey).trans he⟩

end WithNone

/-! ## The client constructor -/

namespace Context

variable {O : Type} [Pybind O]

/-- The keywords whose documented default is `None`. -/
def noneDefaultKeys : List String :=
  ["aeron_dir", "media_driver_timeout", "resource_linger_timeout", "error_handler",
    "new_publication_handler", "new_exclusive_publication_handler", "new_subscription_handler",
    "available_image_handler", "unavailable_image_handler"]

def timeoutKeys : List String := ["media_driver_timeout", "resource_linger_timeout"]

def handlerKeys : List String :=
  ["error_handler", "new_publication_handler", "new_exclusive_publication_handler",
    "new_subscription_handler", "available_image_handler", "unavailable_image_handler"]

theorem contextProperties_class {b : Branch O} (hb : b ∈ contextProperties) (v : O)
    (e : PyError) (h : b.convert v = .error e) : e.exceptionClass = .runtimeError := by
  simp only [contextProperties, List.mem_cons, List.not_mem_nil, or_false] at hb
  rcases hb with rfl | rfl | rfl | rfl
  · by_cases hnone : Pybind.isNone v = true
    · simp only [aeronDir, if_pos hnone] at h
      cases h
    · simp only [aeronDir, if_neg hnone] at h
      let dir : Branch O := property "aeron_dir" .aeronDir Pybind.castString
      exact property_class (show dir.convert v = .error e from h)
  · exact property_class h
  · exact property_class h
  · exact property_class h

theorem callbacks_class {b : Branch O} (hb : b ∈ callbacks) (v : O) (e : PyError)
    (h : b.convert v = .error e) : e.exceptionClass = .typeError := by
  have hcallback : ∀ {key : String} {setting : ContextSetting} {forward : O → setting.Value O},
      (callback key setting forward).convert v = .error e → e.exceptionClass = .typeError := by
    intro key setting forward h
    by_cases hfunction : Pybind.isFunction v = true
    · simp only [callback, if_pos hfunction] at h
      cases h
    · simp only [callback, if_neg hfunction, Except.error.injEq] at h
      rw [← h]
      rfl
  simp only [callbacks, List.mem_cons, List.not_mem_nil, or_false] at hb
  rcases hb with rfl | rfl | rfl | rfl | rfl | rfl <;> exact hcallback h

theorem keys_callbacks :
    (callbacks (O := O)).map KeyedOverlay.Branch.key = handlerKeys := rfl

theorem nodup_keys :
    ((contextProperties (O := O) ++ callbacks).map KeyedOverlay.Branch.key).Nodup := by
  change ["aeron_dir", "media_driver_timeout", "resource_linger_timeout",
    "user_conductor_agent_invoker", "error_handler", "new_publication_handler",
    "new_exclusive_publication_handler", "new_subscription_handler", "available_image_handler",
    "unavailable_image_handler"].Nodup
  decide

section Outcome

variable (defaults : ContextDefaults) (env : Option StdString) {args : Kwargs O}

theorem raises_of_rejects_property (h : Rejects contextProperties args.lookup) :
    Raises (context defaults env args) .runtimeError := by
  obtain ⟨e, he, hclass⟩ := exists_failure (fun b hb => contextProperties_class hb) h
  refine ⟨e, KeyedOverlay.overlay_eq_error_iff.mpr ?_, hclass⟩
  rw [KeyedOverlay.failure_append, he, Option.some_or]

theorem raises_of_rejects_handler (hproperties : ¬Rejects contextProperties args.lookup)
    (h : Rejects callbacks args.lookup) : Raises (context defaults env args) .typeError := by
  obtain ⟨e, he, hclass⟩ := exists_failure (fun b hb => callbacks_class hb) h
  refine ⟨e, KeyedOverlay.overlay_eq_error_iff.mpr ?_, hclass⟩
  rw [KeyedOverlay.failure_append, he,
    KeyedOverlay.failure_eq_none_iff_not_rejects.mpr hproperties, Option.none_or]

theorem not_raises_of_not_rejects (hproperties : ¬Rejects contextProperties args.lookup)
    (h : ¬Rejects callbacks args.lookup) (c : ExceptionClass) :
    ¬Raises (context defaults env args) c := by
  have hall : ¬Rejects (contextProperties ++ callbacks) args.lookup :=
    KeyedOverlay.rejects_append.not.mpr (not_or.mpr ⟨hproperties, h⟩)
  obtain ⟨ctx, hctx⟩ : ∃ ctx, context defaults env args = .ok ctx :=
    KeyedOverlay.exists_overlay_iff.mpr (KeyedOverlay.failure_eq_none_iff_not_rejects.mpr hall)
  rw [hctx]
  exact not_raises_ok

/-- The properties come first, so a property that cannot be cast decides. -/
theorem raises_runtimeError_iff :
    Raises (context defaults env args) .runtimeError ↔
      Rejects contextProperties args.lookup := by
  refine ⟨fun h => ?_, raises_of_rejects_property defaults env⟩
  by_contra hproperties
  by_cases hcallbacks : Rejects callbacks args.lookup
  · -- a handler fails, with the other class
    obtain ⟨e, he, hclass⟩ := h
    obtain ⟨e', he', hclass'⟩ := raises_of_rejects_handler defaults env hproperties hcallbacks
    rw [he, Except.error.injEq] at he'
    rw [← he', hclass] at hclass'
    cases hclass'
  · exact not_raises_of_not_rejects defaults env hproperties hcallbacks _ h

theorem raises_typeError_iff (hproperties : ¬Rejects contextProperties args.lookup) :
    Raises (context defaults env args) .typeError ↔ Rejects callbacks args.lookup := by
  refine ⟨fun h => ?_, raises_of_rejects_handler defaults env hproperties⟩
  by_contra hcallbacks
  exact not_raises_of_not_rejects defaults env hproperties hcallbacks _ h

end Outcome

variable [LawfulPybind O] {args : Kwargs O} {keys : List String}

theorem aeronDir_convert_none :
    (aeronDir (O := O)).convert Pybind.pyNone = .ok none :=
  if_pos ((LawfulPybind.isNone_iff _).mpr rfl)

/-- Every handler branch raises on `None`. -/
theorem callbacks_convert_none {b : Branch O} (hb : b ∈ callbacks) :
    ∃ e, b.convert Pybind.pyNone = .error e := by
  have hfunction : ¬Pybind.isFunction (Pybind.pyNone : O) = true := by
    rw [LawfulPybind.isFunction_none]
    decide
  simp only [callbacks, List.mem_cons, List.not_mem_nil, or_false] at hb
  rcases hb with rfl | rfl | rfl | rfl | rfl | rfl <;> exact ⟨_, if_neg hfunction⟩

theorem rejects_handler_withNone_iff (habsent : ∀ key ∈ keys, args.lookup key = none) :
    Rejects (callbacks (O := O)) (args.withNone keys).lookup ↔
      Rejects callbacks args.lookup ∨ ∃ key ∈ keys, key ∈ handlerKeys := by
  rw [rejects_withNone_iff habsent, ← keys_callbacks (O := O)]
  refine or_congr_right ⟨?_, ?_⟩
  · rintro ⟨b, hb, hkey, -⟩
    exact ⟨b.key, hkey, List.mem_map_of_mem hb⟩
  · rintro ⟨key, hkey, hmem⟩
    obtain ⟨b, hb, rfl⟩ := List.mem_map.mp hmem
    exact ⟨b, hb, hkey, callbacks_convert_none hb⟩

/-- Of the properties the two timeouts raise on `None`. -/
theorem rejects_property_withNone_iff (habsent : ∀ key ∈ keys, args.lookup key = none) :
    Rejects (contextProperties (O := O)) (args.withNone keys).lookup ↔
      Rejects contextProperties args.lookup ∨ ∃ key ∈ keys, key ∈ timeoutKeys := by
  have htimeout : ∀ {b : Branch O}, b = mediaDriverTimeout ∨ b = resourceLingerTimeout →
      b.key ∈ timeoutKeys ∧ b.convert Pybind.pyNone = .error .castError := by
    rintro b (rfl | rfl)
    · exact ⟨List.mem_cons_self,
        property_convert_error.mpr ⟨LawfulPybind.castMilliseconds_none, rfl⟩⟩
    · exact ⟨List.mem_cons_of_mem _ List.mem_cons_self,
        property_convert_error.mpr ⟨LawfulPybind.castMilliseconds_none, rfl⟩⟩
  rw [rejects_withNone_iff habsent]
  refine or_congr_right ⟨?_, ?_⟩
  · rintro ⟨b, hb, hkey, e, he⟩
    simp only [contextProperties, List.mem_cons, List.not_mem_nil, or_false] at hb
    rcases hb with rfl | rfl | rfl | rfl
    · rw [aeronDir_convert_none] at he
      cases he
    · exact ⟨_, hkey, (htimeout (Or.inl rfl)).1⟩
    · exact ⟨_, hkey, (htimeout (Or.inr rfl)).1⟩
    · obtain ⟨hcast, -⟩ := property_convert_error.mp he
      rw [LawfulPybind.castBool_none] at hcast
      cases hcast
  · rintro ⟨key, hkey, hmem⟩
    simp only [timeoutKeys, List.mem_cons, List.not_mem_nil, or_false] at hmem
    rcases hmem with rfl | rfl
    · exact ⟨mediaDriverTimeout, by simp [contextProperties], hkey, _, (htimeout (Or.inl rfl)).2⟩
    · exact ⟨resourceLingerTimeout, by simp [contextProperties], hkey, _,
        (htimeout (Or.inr rfl)).2⟩

/-- `None` for `aeron_dir` alone changes nothing. -/
theorem context_withNone_aeronDir {defaults : ContextDefaults} {env : Option StdString}
    (habsent : ∀ key ∈ keys, args.lookup key = none) (hkeys : ∀ key ∈ keys, key = "aeron_dir") :
    context defaults env (args.withNone keys) = context defaults env args := by
  refine KeyedOverlay.overlay_congr (fun b hb => ?_) _
  by_cases hkey : b.key ∈ keys
  · have hb' : b = aeronDir :=
      List.inj_on_of_nodup_map nodup_keys hb List.mem_cons_self (hkeys _ hkey)
    subst hb'
    rw [value_withNone_of_mem hkey, aeronDir_convert_none, Branch.value_of_none (habsent _ hkey)]
  · exact value_withNone_of_not_mem hkey

/-- When `None` for absent keywords has the outcome of omitting them. -/
theorem context_withNone_iff (defaults : ContextDefaults) (env : Option StdString)
    (habsent : ∀ key ∈ keys, args.lookup key = none) (hkeys : ∀ key ∈ keys, key ∈ noneDefaultKeys) :
    SameOutcome (context defaults env (args.withNone keys)) (context defaults env args) ↔
      ((∃ key ∈ keys, key ∈ timeoutKeys) → Rejects contextProperties args.lookup) ∧
        ((∃ key ∈ keys, key ∈ handlerKeys) →
          Rejects (contextProperties ++ callbacks) args.lookup) := by
  have hproperty := rejects_property_withNone_iff (O := O) habsent
  have hhandler := rejects_handler_withNone_iff (O := O) habsent
  rw [KeyedOverlay.rejects_append]
  by_cases hrejects' : Rejects contextProperties (args.withNone keys).lookup
  · -- the call with `None` fails at a property, so the other one has to as well
    rw [sameOutcome_iff_raises (raises_of_rejects_property defaults env hrejects'),
      raises_runtimeError_iff]
    constructor
    · intro h
      exact ⟨fun _ => h, fun _ => Or.inl h⟩
    · rintro ⟨htimeout, -⟩
      exact (hproperty.mp hrejects').elim id htimeout
  have hrejects : ¬Rejects contextProperties args.lookup := fun h =>
    hrejects' (hproperty.mpr (Or.inl h))
  by_cases hcallbacks' : Rejects callbacks (args.withNone keys).lookup
  · -- it fails at a handler
    rw [sameOutcome_iff_raises (raises_of_rejects_handler defaults env hrejects' hcallbacks'),
      raises_typeError_iff defaults env hrejects]
    constructor
    · intro h
      exact ⟨fun htimeout => absurd (hproperty.mpr (Or.inr htimeout)) hrejects', fun _ => Or.inr h⟩
    · rintro ⟨-, hgiven⟩
      rcases hhandler.mp hcallbacks' with h | hkey
      · exact h
      · exact (hgiven hkey).resolve_left hrejects
  · -- only `aeron_dir` is left
    have htimeout : ¬∃ key ∈ keys, key ∈ timeoutKeys := fun h =>
      hrejects' (hproperty.mpr (Or.inr h))
    have hgiven : ¬∃ key ∈ keys, key ∈ handlerKeys := fun h =>
      hcallbacks' (hhandler.mpr (Or.inr h))
    have hdir : ∀ key ∈ keys, key = "aeron_dir" := by
      intro key hkey
      rcases List.mem_cons.mp (hkeys key hkey) with hdir | hkey'
      · exact hdir
      · rcases List.mem_append.mp (show key ∈ timeoutKeys ++ handlerKeys from hkey') with h | h
        · exact absurd ⟨key, hkey, h⟩ htimeout
        · exact absurd ⟨key, hkey, h⟩ hgiven
    exact iff_of_true (SameOutcome.of_eq (context_withNone_aeronDir habsent hdir))
      ⟨fun h => absurd h htimeout, fun h => absurd h hgiven⟩

end Context

/-! ## The archive constructor -/

namespace Archive

variable {O : Type} [Pybind O]

/-- The recognised keywords; `None` is the documented default of each. -/
def recognisedKeys : List String :=
  ["config_file", "aeron_dir", "message_timeout_ns", "control_request_channel",
    "control_request_stream_id", "control_response_channel", "control_response_stream_id",
    "recording_events_channel", "recording_events_stream_id", "control_term_buffer_sparse",
    "control_term_buffer_length", "control_mtu_length"]

theorem keys_contextProperties :
    configFileKey :: (contextProperties (O := O)).map KeyedOverlay.Branch.key =
      recognisedKeys := rfl

theorem nodup_recognisedKeys : recognisedKeys.Nodup := by decide

theorem sparse_mem : controlTermBufferSparse ∈ contextProperties (O := O) := by
  simp [contextProperties]

theorem eq_sparse_of_key {b : Branch O} (hb : b ∈ contextProperties)
    (h : b.key = controlTermBufferSparseKey) : b = controlTermBufferSparse := by
  have hnodup := nodup_recognisedKeys
  rw [← keys_contextProperties (O := O)] at hnodup
  exact List.inj_on_of_nodup_map (List.nodup_cons.mp hnodup).2 hb sparse_mem h

theorem properties_class {b : Branch O} (hb : b ∈ contextProperties) (v : O) (e : PyError)
    (h : b.convert v = .error e) : e.exceptionClass = .runtimeError := by
  simp only [contextProperties, List.mem_cons, List.not_mem_nil, or_false] at hb
  rcases hb with rfl | rfl | rfl | rfl | rfl | rfl | rfl | rfl | rfl | rfl | rfl <;>
    first | exact property_class h | exact congrArg _ (sparse_convert_error h)

section Outcome

variable {client : ArchiveClient} (env : Option StdString) {args : Kwargs O}
  {base : ArchiveContext}

theorem archive_of_base_error {e : PyError} (h : baseContext client args = .error e) :
    archive client env args = .error e := by
  rw [archive, h]
  rfl

theorem archive_of_base_ok (h : baseContext client args = .ok base) :
    archive client env args = overlay contextProperties args.lookup (environment env base) := by
  rw [archive, h]
  rfl

theorem raises_of_rejects (hbase : baseContext client args = .ok base)
    (h : Rejects contextProperties args.lookup) :
    Raises (archive client env args) .runtimeError := by
  obtain ⟨e, he, hclass⟩ := exists_failure (fun b hb => properties_class hb) h
  exact ⟨e, (archive_of_base_ok env hbase).trans (KeyedOverlay.overlay_eq_error_iff.mpr he), hclass⟩

theorem archive_of_not_rejects (hbase : baseContext client args = .ok base)
    (h : ¬Rejects contextProperties args.lookup) :
    ∃ context, archive client env args = .ok context := by
  obtain ⟨context, hcontext⟩ := KeyedOverlay.exists_overlay_iff.mpr
    (KeyedOverlay.failure_eq_none_iff_not_rejects.mpr h)
  exact ⟨context, (archive_of_base_ok env hbase).trans hcontext⟩

theorem raises_iff (hbase : baseContext client args = .ok base) :
    Raises (archive client env args) .runtimeError ↔ Rejects contextProperties args.lookup := by
  refine ⟨fun h => ?_, raises_of_rejects env hbase⟩
  by_contra hrejects
  obtain ⟨context, hcontext⟩ := archive_of_not_rejects env hbase hrejects
  rw [hcontext] at h
  exact not_raises_ok h

end Outcome

variable [LawfulPybind O] {args : Kwargs O} {keys : List String}

/-- Every branch but the sparse one raises on `None`. -/
theorem convert_none_of_ne {b : Branch O} (hb : b ∈ contextProperties)
    (hsparse : b ≠ controlTermBufferSparse) : ∃ e, b.convert Pybind.pyNone = .error e := by
  simp only [contextProperties, List.mem_cons, List.not_mem_nil, or_false] at hb
  rcases hb with rfl | rfl | rfl | rfl | rfl | rfl | rfl | rfl | rfl | rfl | rfl <;>
    first
    | exact absurd rfl hsparse
    | exact ⟨_, property_convert_error.mpr ⟨LawfulPybind.castString_none, rfl⟩⟩
    | exact ⟨_, property_convert_error.mpr ⟨LawfulPybind.castInt32_none, rfl⟩⟩
    | exact ⟨_, property_convert_error.mpr ⟨LawfulPybind.castInt64_none, rfl⟩⟩

/-- `None` is false for the sparse branch, which stores `true` all the same. -/
theorem sparse_convert_none :
    (controlTermBufferSparse (O := O)).convert Pybind.pyNone = .ok (some true) :=
  sparse_convert_ok.mpr ⟨⟨false, LawfulPybind.castBool_none⟩, rfl⟩

theorem rejects_withNone_iff (habsent : ∀ key ∈ keys, args.lookup key = none)
    (hkeys : ∀ key ∈ keys, key ∈ recognisedKeys) (hfile : configFileKey ∉ keys) :
    Rejects (contextProperties (O := O)) (args.withNone keys).lookup ↔
      Rejects contextProperties args.lookup ∨ ∃ key ∈ keys, key ≠ controlTermBufferSparseKey := by
  rw [AeronPy.rejects_withNone_iff habsent]
  refine or_congr_right ⟨?_, ?_⟩
  · rintro ⟨b, hb, hkey, e, he⟩
    refine ⟨b.key, hkey, fun hsparse => ?_⟩
    rw [eq_sparse_of_key hb hsparse, sparse_convert_none] at he
    cases he
  · rintro ⟨key, hkey, hne⟩
    have hmem := hkeys key hkey
    rw [← keys_contextProperties (O := O)] at hmem
    rcases List.mem_cons.mp hmem with rfl | hmem
    · exact absurd hkey hfile
    · obtain ⟨b, hb, rfl⟩ := List.mem_map.mp hmem
      exact ⟨b, hb, hkey, convert_none_of_ne hb fun hsparse => hne (hsparse ▸ rfl)⟩

/-- `None` for the config file is not the name of one. -/
theorem baseContext_withNone_of_mem (client : ArchiveClient) (h : configFileKey ∈ keys) :
    baseContext client (args.withNone keys) = .error .castError := by
  have hcast : cast Pybind.castString (Pybind.pyNone : O) = .error .castError :=
    cast_eq_error.mpr ⟨LawfulPybind.castString_none, rfl⟩
  simp only [baseContext, Kwargs.lookup_withNone, if_pos h, hcast]
  rfl

omit [LawfulPybind O] in
theorem baseContext_withNone_of_not_mem (client : ArchiveClient) (h : configFileKey ∉ keys) :
    baseContext client (args.withNone keys) = baseContext client args := by
  simp only [baseContext, Kwargs.lookup_withNone, if_neg h]

/-- `None` for the sparse setting alone: the setting becomes `true`, the others are as before. -/
theorem overlay_withNone_sparse
    (hkeys : ∀ key ∈ keys, key = controlTermBufferSparseKey) (hne : keys ≠ [])
    {base context : ArchiveContext}
    (h : overlay contextProperties args.lookup base = .ok context) :
    overlay contextProperties (args.withNone keys).lookup base =
      .ok (Function.update context .controlTermBufferSparse true) := by
  have hsparse : controlTermBufferSparseKey ∈ keys := by
    obtain ⟨key, hkey⟩ := List.exists_mem_of_ne_nil keys hne
    exact hkeys key hkey ▸ hkey
  have hold := (KeyedOverlay.overlay_eq_ok_iff nodup_settings).mp h
  refine (KeyedOverlay.overlay_eq_ok_iff nodup_settings).mpr ⟨fun b hb => ?_, fun i hi => ?_⟩
  · by_cases hb' : b = controlTermBufferSparse
    · subst hb'
      exact ⟨some true, (value_withNone_of_mem hsparse).trans sparse_convert_none, rfl⟩
    · -- every other branch reads what it read before
      have hkey : b.key ∉ keys := fun hkey => hb' (eq_sparse_of_key hb (hkeys _ hkey))
      have hsetting : b.setting ≠ .controlTermBufferSparse := fun hset =>
        hb' (List.inj_on_of_nodup_map nodup_settings hb sparse_mem hset)
      obtain ⟨o, hvalue, ht⟩ := hold.sets b hb
      exact ⟨o, (value_withNone_of_not_mem hkey).trans hvalue,
        (Function.update_of_ne hsetting _ _).trans ht⟩
  · obtain ⟨b, hb, rfl⟩ := exists_branch (O := O) i
    exact absurd (List.mem_map_of_mem hb) hi

/-- `None` for the config file, which was absent, fails before the properties. -/
theorem sameOutcome_configFile (client : ArchiveClient) (env : Option StdString)
    (habsent : args.lookup configFileKey = none) (hfile : configFileKey ∈ keys) :
    SameOutcome (archive client env (args.withNone keys)) (archive client env args) ↔
      Rejects contextProperties args.lookup := by
  have hbase : baseContext client args = .ok client.defaults := by
    simp only [baseContext, habsent]
    rfl
  have hraises : Raises (archive client env (args.withNone keys)) .runtimeError :=
    ⟨_, archive_of_base_error env (baseContext_withNone_of_mem client hfile), rfl⟩
  rw [sameOutcome_iff_raises hraises, raises_iff env hbase]

/-- `None` for the sparse setting alone: it becomes `true`, where omission leaves the base. -/
theorem sameOutcome_sparse {client : ArchiveClient} (env : Option StdString)
    {base : ArchiveContext} (habsent : args.lookup controlTermBufferSparseKey = none)
    (hall : ∀ key ∈ keys, key = controlTermBufferSparseKey) (hne : keys ≠ [])
    (hbase : baseContext client args = .ok base)
    (hbase' : baseContext client (args.withNone keys) = .ok base)
    (hrejects : ¬Rejects contextProperties args.lookup) :
    SameOutcome (archive client env (args.withNone keys)) (archive client env args) ↔
      base .controlTermBufferSparse = true := by
  obtain ⟨context, hcontext⟩ := archive_of_not_rejects env hbase hrejects
  have hoverlay := (archive_of_base_ok env hbase).symm.trans hcontext
  have hvalue : context .controlTermBufferSparse = base .controlTermBufferSparse := by
    obtain ⟨o, ho, hset⟩ := ((KeyedOverlay.overlay_eq_ok_iff nodup_settings).mp hoverlay).sets _
      sparse_mem
    rw [Branch.value_of_none habsent, Except.ok.injEq] at ho
    rw [← ho] at hset
    have hne : ArchiveSetting.controlTermBufferSparse ≠ .aeronDirectoryName := by decide
    exact hset.trans (environment_of_ne hne env base)
  rw [archive_of_base_ok env hbase', overlay_withNone_sparse hall hne hoverlay, hcontext,
    sameOutcome_ok, Function.update_eq_iff]
  exact ⟨fun h => hvalue ▸ h.1.symm, fun h => ⟨(hvalue.trans h).symm, fun _ _ => rfl⟩⟩

/-- When `None` for absent keywords has the outcome of omitting them. -/
theorem archive_withNone_iff (client : ArchiveClient) (env : Option StdString)
    (habsent : ∀ key ∈ keys, args.lookup key = none) (hkeys : ∀ key ∈ keys, key ∈ recognisedKeys) :
    SameOutcome (archive client env (args.withNone keys)) (archive client env args) ↔
      keys = [] ∨ (¬∃ base, baseContext client args = .ok base) ∨
        Rejects contextProperties args.lookup ∨
        (∀ key ∈ keys, key = controlTermBufferSparseKey) ∧
          ∃ base, baseContext client args = .ok base ∧ base .controlTermBufferSparse = true := by
  by_cases hfile : configFileKey ∈ keys
  · have hbase : ∃ base, baseContext client args = .ok base :=
      ⟨client.defaults, by simp only [baseContext, habsent _ hfile]; rfl⟩
    have hsparse : ¬∀ key ∈ keys, key = controlTermBufferSparseKey := fun h =>
      absurd (h _ hfile) (by decide)
    rw [sameOutcome_configFile client env (habsent _ hfile) hfile]
    simp only [List.ne_nil_of_mem hfile, hbase, hsparse, not_true_eq_false, false_and, or_false,
      false_or]
  have hbase' : baseContext client (args.withNone keys) = baseContext client args :=
    baseContext_withNone_of_not_mem client hfile
  cases hbase : baseContext client args with
  | error e =>
    rw [archive_of_base_error env hbase, archive_of_base_error env (hbase'.trans hbase)]
    exact iff_of_true (SameOutcome.of_eq rfl) (Or.inr (Or.inl fun ⟨_, h⟩ => nomatch h))
  | ok base =>
    rw [hbase] at hbase'
    simp only [Except.ok.injEq, exists_eq', exists_eq_left', not_true_eq_false, false_or]
    have hproperty := rejects_withNone_iff habsent hkeys hfile
    by_cases hrejects' : Rejects contextProperties (args.withNone keys).lookup
    · -- the call with `None` fails at a property
      rw [sameOutcome_iff_raises (raises_of_rejects env hbase' hrejects'), raises_iff env hbase]
      refine ⟨fun h => Or.inr (Or.inl h), ?_⟩
      rintro (rfl | hrejects | ⟨hall, -⟩)
      · exact hrejects'
      · exact hrejects
      · refine (hproperty.mp hrejects').resolve_right ?_
        rintro ⟨key, hkey, hne⟩
        exact hne (hall key hkey)
    -- every key is the sparse one
    have hrejects : ¬Rejects contextProperties args.lookup := fun h =>
      hrejects' (hproperty.mpr (Or.inl h))
    have hall : ∀ key ∈ keys, key = controlTermBufferSparseKey := fun key hkey =>
      not_not.mp fun hne => hrejects' (hproperty.mpr (Or.inr ⟨key, hkey, hne⟩))
    by_cases hnil : keys = []
    · subst hnil
      exact iff_of_true (SameOutcome.of_eq rfl) (Or.inl rfl)
    · obtain ⟨key, hkey⟩ := List.exists_mem_of_ne_nil keys hnil
      have habsent' : args.lookup controlTermBufferSparseKey = none :=
        (hall key hkey).symm ▸ habsent key hkey
      rw [sameOutcome_sparse env habsent' hall hnil hbase hbase' hrejects]
      simp only [hnil, hrejects, false_or]
      exact (and_iff_right hall).symm

end Archive

/-! ## Both constructors -/

/-- When `None` for absent keywords has the same outcome as omitting them. For the client:
the two timeouts only where a property is rejected anyway, the handlers only where some
keyword is. For the archive: only where the construction fails anyway, or the keyword is
`control_term_buffer_sparse` alone and the setting is true in the base. -/
theorem none_eq_omission_iff {O : Type} [Pybind O] [LawfulPybind O] {args : Kwargs O}
    {keys : List String} (habsent : ∀ key ∈ keys, args.lookup key = none) :
    (∀ defaults env, (∀ key ∈ keys, key ∈ Context.noneDefaultKeys) →
      (SameOutcome (Context.context defaults env (args.withNone keys))
          (Context.context defaults env args) ↔
        ((∃ key ∈ keys, key ∈ Context.timeoutKeys) →
          Rejects Context.contextProperties args.lookup) ∧
        ((∃ key ∈ keys, key ∈ Context.handlerKeys) →
          Rejects (Context.contextProperties ++ Context.callbacks) args.lookup))) ∧
    ∀ client env, (∀ key ∈ keys, key ∈ Archive.recognisedKeys) →
      (SameOutcome (Archive.archive client env (args.withNone keys))
          (Archive.archive client env args) ↔
        keys = [] ∨ (¬∃ base, Archive.baseContext client args = .ok base) ∨
          Rejects Archive.contextProperties args.lookup ∨
          (∀ key ∈ keys, key = Archive.controlTermBufferSparseKey) ∧
            ∃ base, Archive.baseContext client args = .ok base ∧
              base .controlTermBufferSparse = true) :=
  ⟨fun defaults env hkeys => Context.context_withNone_iff defaults env habsent hkeys,
    fun client env hkeys => Archive.archive_withNone_iff client env habsent hkeys⟩

/-- `Context(media_driver_timeout=timedelta(seconds=5), new_subscription_handler=…)` -/
def timeoutArgs : Kwargs PyValue :=
  AList.insert "media_driver_timeout" (.timedelta 5000)
    (AList.singleton "new_subscription_handler" (.function "on_subscription"))

/-- `Archive(message_timeout_ns=1000, recording_events_stream_id=31)` -/
def timeoutStreamArgs : Kwargs PyValue :=
  AList.insert "message_timeout_ns" (.int 1000)
    (AList.singleton "recording_events_stream_id" (.int 31))

/-- Besides other keywords, `aeron_dir=None` is as if left out of the call of `Context`, and
`control_term_buffer_sparse=None` of that of `Archive`, where the default is true. -/
theorem none_eq_omission_aeron_dir :
    SameOutcome
      (Context.context Context.defaultContext (some "/tmp".toUTF8.toList)
        (timeoutArgs.withNone ["aeron_dir"]))
      (Context.context Context.defaultContext (some "/tmp".toUTF8.toList) timeoutArgs) ∧
    SameOutcome
      (Archive.archive Archive.defaultClient (some "/tmp".toUTF8.toList)
        (timeoutStreamArgs.withNone ["control_term_buffer_sparse"]))
      (Archive.archive Archive.defaultClient (some "/tmp".toUTF8.toList) timeoutStreamArgs) := by
  have hdir : ∀ key ∈ ["aeron_dir"], timeoutArgs.lookup key = none := by decide
  have hsparse : ∀ key ∈ ["control_term_buffer_sparse"], timeoutStreamArgs.lookup key = none := by
    decide
  have hcontext := (none_eq_omission_iff hdir).1 Context.defaultContext
    (some "/tmp".toUTF8.toList) (by decide)
  have harchive := (none_eq_omission_iff hsparse).2 Archive.defaultClient
    (some "/tmp".toUTF8.toList) (by decide)
  constructor
  · exact hcontext.mpr ⟨fun h => absurd h (by decide), fun h => absurd h (by decide)⟩
  · exact harchive.mpr (Or.inr (Or.inr (Or.inr ⟨by decide, _, rfl, rfl⟩)))

/-- `Context(media_driver_timeout=None)` raises, `Context()` connects, and so for
`Archive(aeron_dir=None)` and `Archive()`. -/
theorem none_rejected :
    (¬SameOutcome
      (Context.context Context.defaultContext none
        ((∅ : Kwargs PyValue).withNone ["media_driver_timeout"]))
      (Context.context Context.defaultContext none (∅ : Kwargs PyValue))) ∧
    ¬SameOutcome
      (Archive.archive Archive.defaultClient none ((∅ : Kwargs PyValue).withNone ["aeron_dir"]))
      (Archive.archive Archive.defaultClient none (∅ : Kwargs PyValue)) :=
  ⟨nofun, nofun⟩

end AeronPy
