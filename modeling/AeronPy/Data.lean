import AeronPy.Pybind

/-!
# Images, headers and the classes Python knows

The helpers `image` and `header` of `_data.cpp`, the attributes under which
`PYBIND11_MODULE(_data)` exposes them, and which C++ classes the modules of the package
register: those are the ones pybind11 can hand to a Python function.
-/

namespace AeronPy

/-! ## `aeron::Image` -/

/-- `aeron::Image`. It is a value: every copy carries its own flags. -/
structure Image where
  correlationId : ℕ
  session : Int32
  endOfStream : Bool
  closed : Bool
deriving DecidableEq, Repr

namespace Image

/-- `image::session_id`. -/
def sessionId (self : Image) : Int32 := self.session

/-- `image::is_end_of_stream`. -/
def isEndOfStream (self : Image) : Bool := self.endOfStream

/-- `image::is_closed`. -/
def isClosed (self : Image) : Bool := self.closed

/-- `image::close`: marks the image it is called on. -/
def close (self : Image) : Image := { self with closed := true }

end Image

/-! ## `aeron::Header` -/

/-- `aeron::Header`, the header of a stored fragment. -/
structure Header where
  stream : Int32
  session : Int32
deriving DecidableEq, Repr

namespace Header

/-- `header::stream_id`. -/
def streamId (self : Header) : Int32 := self.stream

/-- `header::session_id`. -/
def sessionId (self : Header) : Int32 := self.session

/-- The read-only properties of the Python class `Header`, with the functions they are bound
to. Both are bound to `&header::session_id`. -/
def properties : List (String × (Header → Int32)) :=
  [("stream_id", sessionId), ("session_id", sessionId)]

/-- `getattr(header, name)`. -/
def getattr (self : Header) (name : String) : Option Int32 :=
  (properties.lookup name).map fun property => property self

end Header

/-! ## Registered classes -/

/-- The C++ classes that the bindings hand to Python. -/
inductive CppClass where
  | image | header | subscription | publication | exclusivePublication
  | recording | archive | context | stdException
deriving DecidableEq, Repr

/-- The extension modules. -/
inductive Module where
  | archive | context | data | exclusivePublication | publication | subscription
deriving DecidableEq, Repr

/-- The `py::class_` registrations of each `PYBIND11_MODULE`. -/
def Module.classes : Module → List CppClass
  | .archive => [.recording, .archive]
  | .context => [.context]
  | .data => [.image, .header]
  | .exclusivePublication => [.exclusivePublication]
  | .publication => [.publication]
  | .subscription => [.subscription]

/-- The modules that `aeronpy/__init__.py` imports, in its order. -/
def importedModules : List Module :=
  [.archive, .context, .data, .exclusivePublication, .publication, .subscription]

/-- The class is registered by an imported module of the package. -/
def CppClass.registered (c : CppClass) : Bool :=
  importedModules.any fun m => m.classes.contains c

/-- A C++ value passed to a Python function. -/
inductive CppValue where
  | string (s : String)
  | int (n : ℤ)
  | image (image : Image)
  | header (header : Header)
  | stdException (what : String)
deriving DecidableEq, Repr

/-- The class of a value that is not converted by a built-in caster. -/
def CppValue.cppClass : CppValue → Option CppClass
  | .string _ | .int _ => none
  | .image _ => some .image
  | .header _ => some .header
  | .stdException _ => some .stdException

/-- pybind11 can make a Python value of it: strings and integers have built-in casters,
anything else needs its class registered. -/
def CppValue.convertible (v : CppValue) : Bool :=
  match v.cppClass with
  | none => true
  | some c => c.registered

/-- Convert the arguments of a Python call; one that has no conversion throws before the
function is entered. -/
def convertArguments (args : List CppValue) : Except PyError (List CppValue) :=
  if args.all CppValue.convertible then .ok args else .error .castError

/-- `std::exception` is the one class the bindings pass on that no module registers. -/
theorem registered_iff (c : CppClass) : c.registered = true ↔ c ≠ .stdException := by
  cases c <;> decide

theorem convertible_iff (v : CppValue) :
    v.convertible = true ↔ ∀ what, v ≠ .stdException what := by
  cases v with
  | string s => exact iff_of_true rfl nofun
  | int n => exact iff_of_true rfl nofun
  | image i => exact iff_of_true ((registered_iff .image).mpr nofun) nofun
  | header h => exact iff_of_true ((registered_iff .header).mpr nofun) nofun
  | stdException what =>
    exact iff_of_false (fun h => (registered_iff .stdException).mp h rfl) fun h => h what rfl

end AeronPy
