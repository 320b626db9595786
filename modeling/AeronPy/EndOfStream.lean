import AeronPy.Context

/-!
# Polling for ended streams

`subscription::poll_eos` passes Aeron a lambda that calls the Python handler with every image
at the end of its stream, if there is a handler: the argument defaults to `None`, and the
lambda tests the handle of the object.

* `Interpreter.call`: what calling a Python object comes to, callable or not;
* `Subscription.pollEos`: the poll, on a handle;
* `Subscription.pyPollEos`: the method, with the handler passed or omitted.
-/

namespace AeronPy

variable {O : Type}

/-! ## Calling Python objects -/

theorem callPython_image (handler : O) (image : Image) :
    callPython handler [.image image] = .ok ⟨handler, [.image image]⟩ := by
  refine callPython_of_convertible (fun arg harg => ?_) handler
  rw [List.mem_singleton.mp harg]
  exact (convertible_iff _).mpr nofun

variable [Pybind O]

/-- The Python that objects are called in: which of them are callable, and whether a call of
one returns or raises. -/
structure Interpreter (O : Type) [Pybind O] where
  callable : O → Bool
  body : O → List CppValue → Except ExceptionClass Unit
  callable_none : callable Pybind.pyNone = false

namespace Interpreter

/-- `handler(args...)`, up to its return. An object that is not callable raises `TypeError`. -/
def call (python : Interpreter O) (handler : O) (args : List CppValue) :
    Except PyError (PyCall O) := do
  let call ← callPython handler args
  if python.callable handler then
    match python.body handler call.args with
    | .ok _ => return call
    | .error exceptionClass => throw (.foreign exceptionClass)
  else
    throw (.foreign .typeError)

/-- The object is callable with an image, and returns. -/
def TakesImage (python : Interpreter O) (handler : O) : Prop :=
  python.callable handler = true ∧ ∀ image, python.body handler [.image image] = .ok ()

end Interpreter

/-! ## `subscription::poll_eos` -/

/-- `py::object`: a handle to an object, `none` for the null handle. -/
abbrev PyObject (O : Type) := Option O

/-- Aeron's poll for ended streams: the callback is called once for each image at the end of
its stream, in order, and their number is the result. -/
def pollEndOfStreams {α : Type} (callback : Image → Except PyError α) (images : List Image) :
    Except PyError (List α × ℕ) := do
  let ended := images.filter Image.isEndOfStream
  let calls ← ended.mapM callback
  return (calls, ended.length)

namespace Subscription

/-- The lambda that `subscription::poll_eos` passes to Aeron. -/
def pollEosCallback (python : Interpreter O) (handler : PyObject O) (image : Image) :
    Except PyError (Option (PyCall O)) :=
  -- `if (handler)`: the handle is not null
  match handler with
  | some handler => (python.call handler [.image image]).map some
  | none => .ok none

/-- `subscription::poll_eos`, on the images of the subscription: the calls of the handler and
the result. -/
def pollEos (python : Interpreter O) (handler : PyObject O) (images : List Image) :
    Except PyError (List (PyCall O) × ℕ) := do
  let (calls, ended) ← pollEndOfStreams (pollEosCallback python handler) images
  return (calls.filterMap id, ended)

/-- `py::arg("handler") = py::none()`: the argument, or `None` where it is omitted. -/
def eosHandler (passed : Option O) : PyObject O := some (passed.getD Pybind.pyNone)

/-- `subscription.poll_eos()` and `subscription.poll_eos(handler)`. -/
def pyPollEos (python : Interpreter O) (passed : Option O) (images : List Image) :
    Except PyError (List (PyCall O) × ℕ) :=
  pollEos python (eosHandler passed) images

end Subscription

/-! ## Calls -/

variable {python : Interpreter O}

theorem call_of_takesImage {handler : O} (h : python.TakesImage handler) (image : Image) :
    python.call handler [.image image] = .ok ⟨handler, [.image image]⟩ := by
  unfold Interpreter.call
  rw [callPython_image]
  simp [bind, Except.bind, h.1, h.2 image, pure, Except.pure]

theorem call_of_not_callable {handler : O} (h : python.callable handler = false)
    (image : Image) : python.call handler [.image image] = .error (.foreign .typeError) := by
  unfold Interpreter.call
  rw [callPython_image]
  simp [bind, Except.bind, h, throw, throwThe, MonadExceptOf.throw]

/-! ## Polls -/

/-- A callback that never fails is called on every image at the end of its stream. -/
theorem pollEndOfStreams_of_forall_ok {α : Type} {callback : Image → Except PyError α}
    {g : Image → α} (h : ∀ image, callback image = .ok (g image)) (images : List Image) :
    pollEndOfStreams callback images =
      .ok ((images.filter Image.isEndOfStream).map g,
        (images.filter Image.isEndOfStream).length) := by
  have hcallback : callback = fun image => pure (g image) := funext h
  rw [pollEndOfStreams, hcallback, List.mapM_pure]
  rfl

/-- A callback that always fails ends the poll at the first image at the end of its stream. -/
theorem pollEndOfStreams_of_forall_error {α : Type} {callback : Image → Except PyError α}
    {e : PyError} (h : ∀ image, callback image = .error e) {images : List Image}
    (hended : ∃ image ∈ images, image.isEndOfStream = true) :
    pollEndOfStreams callback images = .error e := by
  obtain ⟨image, hmem, heos⟩ := hended
  cases hfilter : images.filter Image.isEndOfStream with
  | nil => exact absurd heos (List.filter_eq_nil_iff.mp hfilter image hmem)
  | cons first others =>
    simp only [pollEndOfStreams, hfilter, List.mapM_cons, h]
    rfl

theorem filter_isEndOfStream_of_forall_not {images : List Image}
    (h : ∀ image ∈ images, image.isEndOfStream = false) :
    images.filter Image.isEndOfStream = [] := by
  rw [List.filter_eq_nil_iff]
  intro image hmem
  rw [h image hmem]
  decide

/-- Without such an image there is nothing to call. -/
theorem pollEndOfStreams_of_forall_not {α : Type} (callback : Image → Except PyError α)
    {images : List Image} (h : ∀ image ∈ images, image.isEndOfStream = false) :
    pollEndOfStreams callback images = .ok ([], 0) := by
  rw [pollEndOfStreams, filter_isEndOfStream_of_forall_not h]
  rfl

namespace Subscription

/-- A handler that takes an image is called once for each image at the end of its stream. -/
theorem pollEos_of_takesImage {handler : O} (h : python.TakesImage handler)
    (images : List Image) :
    pollEos python (some handler) images =
      .ok ((images.filter Image.isEndOfStream).map fun image => ⟨handler, [.image image]⟩,
        (images.filter Image.isEndOfStream).length) := by
  have hcallback : ∀ image, pollEosCallback python (some handler) image =
      .ok (some ⟨handler, [.image image]⟩) := by
    intro image
    rw [pollEosCallback, call_of_takesImage h image]
    rfl
  unfold pollEos
  rw [pollEndOfStreams_of_forall_ok hcallback]
  -- every callback made a call
  simp [bind, Except.bind, pure, Except.pure, List.filterMap_map]

/-- The guard holds back the call through a null handle. -/
theorem pollEos_null (images : List Image) :
    pollEos python none images = .ok ([], (images.filter Image.isEndOfStream).length) := by
  have hcallback : ∀ image, pollEosCallback python none image = .ok none := fun _ => rfl
  unfold pollEos
  rw [pollEndOfStreams_of_forall_ok hcallback]
  -- and none of them did
  simp [bind, Except.bind, pure, Except.pure, List.filterMap_map]

/-- The handle of an object is not null, so one that is not callable is called too. -/
theorem pollEos_of_not_callable {handler : O} (h : python.callable handler = false)
    {images : List Image} (hended : ∃ image ∈ images, image.isEndOfStream = true) :
    pollEos python (some handler) images = .error (.foreign .typeError) := by
  have hcallback : ∀ image, pollEosCallback python (some handler) image =
      .error (.foreign .typeError) := by
    intro image
    rw [pollEosCallback, call_of_not_callable h image]
    rfl
  unfold pollEos
  rw [pollEndOfStreams_of_forall_error hcallback hended]
  rfl

/-- Whatever the handle, a poll without an image at the end of its stream returns zero. -/
theorem pollEos_of_forall_not (handler : PyObject O) {images : List Image}
    (h : ∀ image ∈ images, image.isEndOfStream = false) :
    pollEos python handler images = .ok ([], 0) := by
  unfold pollEos
  rw [pollEndOfStreams_of_forall_not _ h]
  rfl

/-- Without a handler, and with `None`, it is `None` that is called. -/
theorem pyPollEos_omitted (images : List Image) :
    pyPollEos python none images = pyPollEos python (some Pybind.pyNone) images := rfl

/-- What `poll_eos` with a handler and without one come to by its contract. -/
structure EosContract (python : Interpreter O) (handler : O) (images : List Image) : Prop where
  handled : pyPollEos python (some handler) images =
    .ok ((images.filter Image.isEndOfStream).map fun image => ⟨handler, [.image image]⟩,
      (images.filter Image.isEndOfStream).length)
  omitted : pyPollEos python none images =
    .ok ([], (images.filter Image.isEndOfStream).length)
  passedNone : pyPollEos python (some Pybind.pyNone) images =
    .ok ([], (images.filter Image.isEndOfStream).length)

/-- The handler is always called as it should be; without one the poll is as it should be iff
no image is at the end of its stream. -/
theorem eosContract_iff {handler : O} (h : python.TakesImage handler) (images : List Image) :
    pyPollEos python (some handler) images =
      .ok ((images.filter Image.isEndOfStream).map fun image => ⟨handler, [.image image]⟩,
        (images.filter Image.isEndOfStream).length) ∧
    (EosContract python handler images ↔ ∀ image ∈ images, image.isEndOfStream = false) := by
  have hhandled := pollEos_of_takesImage h images
  refine ⟨hhandled, ?_, ?_⟩
  · intro hcontract image hmem
    by_contra heos
    rw [Bool.not_eq_false] at heos
    -- `None` would be called with this image
    have hraises := pollEos_of_not_callable python.callable_none ⟨image, hmem, heos⟩
    have hreturns := hcontract.passedNone
    rw [pyPollEos, eosHandler, Option.getD_some, hraises] at hreturns
    cases hreturns
  · intro hnone
    have hfilter := filter_isEndOfStream_of_forall_not hnone
    have hzero : pyPollEos python none images = .ok ([], 0) := pollEos_of_forall_not _ hnone
    refine ⟨hhandled, ?_, ?_⟩
    · rw [hfilter]
      exact hzero
    · rw [hfilter, ← pyPollEos_omitted]
      exact hzero

/-- Functions are callable, and all of them return. -/
def returningPython : Interpreter PyValue where
  callable := Pybind.isFunction
  body _ _ := .ok ()
  callable_none := rfl

/-- An image at the end of its stream. -/
def endedImage : Image := ⟨7, 1, true, false⟩

theorem eosContract_endedImage :
    pyPollEos returningPython (some (.function "on_eos")) [endedImage] =
      .ok (([endedImage].filter Image.isEndOfStream).map fun image =>
          ⟨.function "on_eos", [.image image]⟩,
        ([endedImage].filter Image.isEndOfStream).length) ∧
    (EosContract returningPython (.function "on_eos") [endedImage] ↔
      ∀ image ∈ [endedImage], image.isEndOfStream = false) :=
  eosContract_iff ⟨rfl, fun _ => rfl⟩ [endedImage]

/-- With one image at the end of its stream, `poll_eos()` raises. -/
theorem not_forall_eosContract :
    ¬∀ (python : Interpreter PyValue) (handler : PyValue), python.TakesImage handler →
      ∀ images, EosContract python handler images := by
  intro h
  have hcontract := h returningPython (.function "on_eos") ⟨rfl, fun _ => rfl⟩ [endedImage]
  have hraises : pyPollEos returningPython none [endedImage] =
      .error (.foreign .typeError) := rfl
  have homitted := hcontract.omitted
  rw [hraises] at homitted
  cases homitted

end Subscription

end AeronPy
