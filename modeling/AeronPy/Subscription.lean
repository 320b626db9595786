import AeronPy.Data

/-!
# Polling

`subscription::poll` gives Aeron a lambda that wraps the window of the term buffer it is
called with in a `memoryview`, asks `is_complete_poll_handler` whether the Python handler
takes the header too, and calls it.

* `Parameter`, `binds`: signatures of Python callables, and when a call with positional
  arguments binds to one;
* `Subscription.pollCallback`, `Subscription.poll`: the lambda and the poll;
* `poll_data`, `poll_dataHeader`: what a poll with a one- or two-parameter handler does.
-/

namespace AeronPy

/-! ## Python callables -/

/-- The kinds of `inspect.Parameter`. -/
inductive ParameterKind where
  | positionalOnly | positionalOrKeyword | varPositional | keywordOnly | varKeyword
deriving DecidableEq, Repr

/-- A parameter of a signature. -/
structure Parameter where
  kind : ParameterKind
  hasDefault : Bool
deriving DecidableEq, Repr

/-- A parameter that takes one positional argument. -/
def Parameter.isPositional (p : Parameter) : Bool :=
  p.kind = .positionalOnly ∨ p.kind = .positionalOrKeyword

/-- A call with `n` positional arguments binds: there is a place for each of them, and every
parameter left over has a default. -/
def binds (parameters : List Parameter) (n : ℕ) : Bool :=
  let positional := parameters.filter Parameter.isPositional
  (n ≤ positional.length ∨ parameters.any fun p => p.kind = .varPositional) ∧
    (positional.drop n).all Parameter.hasDefault ∧
    parameters.all fun p => p.kind = .keywordOnly → p.hasDefault

/-- A Python handler: what `inspect.signature` returns for it or raises. -/
structure Handler where
  signature : Except ExceptionClass (List Parameter)

/-- `is_complete_poll_handler`: the signature has more than one parameter. -/
def Subscription.isCompletePollHandler (handler : Handler) : Except PyError Bool :=
  match handler.signature with
  | .ok parameters => .ok (1 < parameters.length)
  | .error exceptionClass => .error (.foreign exceptionClass)

/-! ## Fragments -/

/-- What Aeron's poll calls the callback with: the window of a term buffer that holds one
stored fragment, and its header. -/
structure Fragment where
  buffer : AtomicBuffer
  offset : ℕ
  length : ℕ
  header : Header
deriving DecidableEq, Repr

/-- The address of the fragment's first byte, `buffer.buffer() + offset`. -/
def Fragment.address (f : Fragment) : ℤ := f.buffer.buffer + f.offset

/-- The bytes of the fragment. -/
def Fragment.payload (f : Fragment) (memory : Memory) : List UInt8 :=
  ByteMemory.read memory f.address f.length

/-- One call that entered the Python handler, with its arguments. -/
structure HandlerCall where
  data : MemoryView
  header : Option Header

/-- Calling the handler: a call that does not bind raises before the function is entered. -/
def Handler.call (handler : Handler) (call : HandlerCall) : Except PyError HandlerCall :=
  match handler.signature with
  | .ok parameters =>
    if binds parameters (if call.header.isSome then 2 else 1) then .ok call
    else .error (.foreign .typeError)
  | .error exceptionClass => .error (.foreign exceptionClass)

/-- The memoryview the lambda makes of a fragment: the window itself, as unsigned bytes. -/
def Subscription.dataView (f : Fragment) : MemoryView :=
  ⟨BufferInfo.linear f.address 1 "B" f.length⟩

/-- The lambda that `subscription::poll` passes to Aeron. -/
def Subscription.pollCallback (handler : Handler) (f : Fragment) : Except PyError HandlerCall := do
  -- expected performance hit: the signature is inspected for every fragment
  let complete ← isCompletePollHandler handler
  if complete then
    handler.call ⟨dataView f, some f.header⟩
  else
    handler.call ⟨dataView f, none⟩

/-- Aeron's poll, on the fragments it delivers: the callback is called once for each of them,
in order, and their number is the result. -/
def aeronPoll {α : Type} (callback : Fragment → Except PyError α) (delivered : List Fragment) :
    Except PyError (List α × ℕ) := do
  let calls ← delivered.mapM callback
  return (calls, delivered.length)

/-- `subscription::poll`, on the fragments that Aeron delivers: the calls of the handler and
the result. -/
def Subscription.poll (handler : Handler) (delivered : List Fragment) :
    Except PyError (List HandlerCall × ℕ) :=
  aeronPoll (pollCallback handler) delivered

/-- `subscription::images`: a copy of the subscription's own list, image by image. -/
def Subscription.images (own : List Image) : List Image := own

/-! ## Handlers of one and of two parameters -/

/-- A handler of one parameter, which accepts the data. -/
def Handler.TakesData (handler : Handler) : Prop :=
  ∃ parameters, handler.signature = .ok parameters ∧ parameters.length = 1 ∧ binds parameters 1

/-- A handler of two parameters, which accepts the data and the header. -/
def Handler.TakesDataHeader (handler : Handler) : Prop :=
  ∃ parameters, handler.signature = .ok parameters ∧ parameters.length = 2 ∧ binds parameters 2

/-- `lambda data: ...` -/
def dataHandler : Handler := ⟨.ok [⟨.positionalOrKeyword, false⟩]⟩

/-- `lambda data, header: ...` -/
def dataHeaderHandler : Handler :=
  ⟨.ok [⟨.positionalOrKeyword, false⟩, ⟨.positionalOrKeyword, false⟩]⟩

theorem dataHandler_takesData : dataHandler.TakesData := ⟨_, rfl, rfl, by decide⟩

theorem dataHeaderHandler_takesDataHeader : dataHeaderHandler.TakesDataHeader :=
  ⟨_, rfl, rfl, by decide⟩

/-- The view of a fragment reads the fragment's window, whenever it is read. -/
@[simp] theorem bytes_dataView (f : Fragment) (memory : Memory) :
    (Subscription.dataView f).bytes memory = f.payload memory :=
  BufferInfo.bytes_linear f.address "B" f.length memory

/-- A callback that never fails is called on every delivered fragment. -/
theorem aeronPoll_of_forall_ok {α : Type} {callback : Fragment → Except PyError α}
    {g : Fragment → α} (h : ∀ f, callback f = .ok (g f)) (delivered : List Fragment) :
    aeronPoll callback delivered = .ok (delivered.map g, delivered.length) := by
  have hcallback : callback = fun f => pure (g f) := funext h
  rw [aeronPoll, hcallback, List.mapM_pure]
  rfl

theorem isCompletePollHandler_of_signature {handler : Handler} {parameters : List Parameter}
    (hsig : handler.signature = .ok parameters) :
    Subscription.isCompletePollHandler handler = .ok (decide (1 < parameters.length)) := by
  simp only [Subscription.isCompletePollHandler, hsig]

theorem call_of_signature {handler : Handler} {parameters : List Parameter}
    (hsig : handler.signature = .ok parameters) (call : HandlerCall) :
    handler.call call =
      if binds parameters (if call.header.isSome then 2 else 1) then .ok call
      else .error (.foreign .typeError) := by
  simp only [Handler.call, hsig]

/-- A call that enters the handler enters it with the arguments it was made with. -/
theorem eq_of_call {handler : Handler} {made entered : HandlerCall}
    (h : handler.call made = .ok entered) : entered = made := by
  cases hsig : handler.signature with
  | error exceptionClass =>
    rw [Handler.call, hsig] at h
    cases h
  | ok parameters =>
    rw [call_of_signature hsig] at h
    by_cases hbinds : binds parameters (if made.header.isSome then 2 else 1) = true
    · rw [if_pos hbinds] at h
      exact (Except.ok.inj h).symm
    · rw [if_neg hbinds] at h
      cases h

/-- Whatever the handler, a call that enters it has the view of the fragment. -/
theorem data_of_pollCallback {handler : Handler} {f : Fragment} {call : HandlerCall}
    (h : Subscription.pollCallback handler f = .ok call) :
    call.data = Subscription.dataView f := by
  obtain ⟨complete, -, hcall⟩ := bind_eq_ok.mp h
  cases complete with
  | true => rw [eq_of_call hcall]
  | false => rw [eq_of_call hcall]

/-- The views that a poll hands out are the views of the delivered fragments. -/
theorem data_of_poll {handler : Handler} {delivered : List Fragment} {calls : List HandlerCall}
    {result : ℕ} (h : Subscription.poll handler delivered = .ok (calls, result)) :
    calls.map HandlerCall.data = delivered.map Subscription.dataView := by
  obtain ⟨calls', hcalls, hreturn⟩ := bind_eq_ok.mp h
  cases hreturn
  clear h
  induction delivered generalizing calls with
  | nil =>
    cases hcalls
    rfl
  | cons f delivered ih =>
    rw [List.mapM_cons] at hcalls
    obtain ⟨call, hcall, htail⟩ := bind_eq_ok.mp hcalls
    obtain ⟨rest, hrest, hcons⟩ := bind_eq_ok.mp htail
    cases hcons
    rw [List.map_cons, List.map_cons, data_of_pollCallback hcall, ih hrest]

/-- The lambda calls the handler with the header iff its signature has more than one
parameter. The call enters the handler when that many arguments bind, and raises otherwise. -/
theorem pollCallback_of_signature {handler : Handler} {parameters : List Parameter}
    (hsig : handler.signature = .ok parameters) (f : Fragment) :
    Subscription.pollCallback handler f =
      if binds parameters (if 1 < parameters.length then 2 else 1) then
        .ok ⟨Subscription.dataView f, if 1 < parameters.length then some f.header else none⟩
      else .error (.foreign .typeError) := by
  rw [Subscription.pollCallback, isCompletePollHandler_of_signature hsig]
  by_cases hlen : 1 < parameters.length
  · simp [call_of_signature hsig, hlen, bind, Except.bind]
  · simp [call_of_signature hsig, hlen, bind, Except.bind]

theorem pollCallback_of_binds {handler : Handler} {parameters : List Parameter}
    (hsig : handler.signature = .ok parameters)
    (hbinds : binds parameters (if 1 < parameters.length then 2 else 1)) (f : Fragment) :
    Subscription.pollCallback handler f =
      .ok ⟨Subscription.dataView f, if 1 < parameters.length then some f.header else none⟩ := by
  rw [pollCallback_of_signature hsig, if_pos hbinds]

/-- A one-parameter handler is called once per fragment, with the data alone. -/
theorem poll_data {handler : Handler} (h : handler.TakesData) (delivered : List Fragment) :
    Subscription.poll handler delivered =
      .ok (delivered.map fun f => ⟨Subscription.dataView f, none⟩, delivered.length) := by
  obtain ⟨parameters, hsig, hlen, hbinds⟩ := h
  refine aeronPoll_of_forall_ok (fun f => ?_) delivered
  have hcall := pollCallback_of_binds hsig (by rwa [hlen]) f
  rwa [hlen] at hcall

/-- A two-parameter handler is called once per fragment, with the data and the header. -/
theorem poll_dataHeader {handler : Handler} (h : handler.TakesDataHeader)
    (delivered : List Fragment) :
    Subscription.poll handler delivered =
      .ok (delivered.map fun f => ⟨Subscription.dataView f, some f.header⟩,
        delivered.length) := by
  obtain ⟨parameters, hsig, hlen, hbinds⟩ := h
  refine aeronPoll_of_forall_ok (fun f => ?_) delivered
  have hcall := pollCallback_of_binds hsig (by rwa [hlen]) f
  rwa [hlen] at hcall

end AeronPy
