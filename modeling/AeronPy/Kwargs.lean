import AeronPy.Pybind
import AeronPy.Lib.KeyedOverlay
import Mathlib.Data.List.AList

/-!
# Keyword arguments

Both constructors take `py::kwargs` and go through the keys they recognise, one branch a key.

* `Pybind`: what a branch asks pybind11 about a Python object, over an arbitrary type of
  objects; `LawfulPybind` is what the constructors rely on, and `PyValue` an instance;
* `Kwargs`: the dictionary, and the same dictionary with some keys passed as `None`;
* `environmentDefault`: a setting from an environment variable;
* `cast`, `property`: a branch that casts the value and hands it to the setter of its setting.
-/

namespace AeronPy

/-- `std::string`, a byte string. -/
abbrev StdString := List UInt8

/-! ## Conversions -/

/-- The values of the built-in types the bindings document, and the questions pybind11
answers about an object. A cast gives `none` where `cast<T>()` throws. -/
class Pybind (O : Type) where
  pyNone : O
  pyStr : PyStr → O
  pyInt : ℤ → O
  pyBool : Bool → O
  isNone : O → Bool
  isFunction : O → Bool
  castString : O → Option StdString
  castInt32 : O → Option Int32
  castInt64 : O → Option Int64
  castBool : O → Option Bool
  castMilliseconds : O → Option Int64

/-- The documented behaviour of the conversions. -/
class LawfulPybind (O : Type) [Pybind O] : Prop where
  isNone_iff (v : O) : Pybind.isNone v = true ↔ v = Pybind.pyNone
  isFunction_none : Pybind.isFunction (Pybind.pyNone : O) = false
  castString_none : Pybind.castString (Pybind.pyNone : O) = none
  castInt32_none : Pybind.castInt32 (Pybind.pyNone : O) = none
  castInt64_none : Pybind.castInt64 (Pybind.pyNone : O) = none
  castBool_none : Pybind.castBool (Pybind.pyNone : O) = some false
  castMilliseconds_none : Pybind.castMilliseconds (Pybind.pyNone : O) = none
  castString_str (s : PyStr) : Pybind.castString (Pybind.pyStr s : O) = s.encode
  castInt32_int (n : ℤ) (x : Int32) :
    Pybind.castInt32 (Pybind.pyInt n : O) = some x ↔ n = x.toInt
  castInt64_int (n : ℤ) (x : Int64) :
    Pybind.castInt64 (Pybind.pyInt n : O) = some x ↔ n = x.toInt
  castBool_bool (b : Bool) : Pybind.castBool (Pybind.pyBool b : O) = some b

/-- Some Python objects. A timedelta is one of whole milliseconds. -/
inductive PyValue where
  | none
  | str (s : PyStr)
  | int (n : ℤ)
  | bool (b : Bool)
  | timedelta (milliseconds : Int64)
  | function (name : String)
deriving DecidableEq

namespace PyValue

/-- The integer an object stands for, where it has one. -/
def asInt : PyValue → Option ℤ
  | .int n => some n
  -- a bool is an int
  | .bool b => some b.toNat
  | _ => .none

/-- The truth value pybind11 gives an object: that of its `__bool__`, and `None` is false. -/
def asBool : PyValue → Option Bool
  | .none => some false
  | .int n => some (n ≠ 0)
  | .bool b => some b
  | .timedelta milliseconds => some (milliseconds ≠ 0)
  -- no truth value by `__bool__`
  | .str _ | .function _ => Option.none

def int32OfInt (n : ℤ) : Option Int32 :=
  if (Int32.ofInt n).toInt = n then some (Int32.ofInt n) else .none

def int64OfInt (n : ℤ) : Option Int64 :=
  if (Int64.ofInt n).toInt = n then some (Int64.ofInt n) else .none

theorem int32OfInt_eq_some {n : ℤ} {x : Int32} : int32OfInt n = some x ↔ n = x.toInt := by
  unfold int32OfInt
  constructor
  · intro h
    split at h
    case isTrue hn => rw [← Option.some.inj h, hn]
    case isFalse => cases h
  · rintro rfl
    rw [Int32.ofInt_toInt, if_pos rfl]

theorem int64OfInt_eq_some {n : ℤ} {x : Int64} : int64OfInt n = some x ↔ n = x.toInt := by
  unfold int64OfInt
  constructor
  · intro h
    split at h
    case isTrue hn => rw [← Option.some.inj h, hn]
    case isFalse => cases h
  · rintro rfl
    rw [Int64.ofInt_toInt, if_pos rfl]

instance : Pybind PyValue where
  pyNone := .none
  pyStr := .str
  pyInt := .int
  pyBool := .bool
  isNone v := v = .none
  isFunction
    | .function _ => true
    | _ => false
  castString
    | .str s => s.encode
    | _ => Option.none
  castInt32 v := v.asInt.bind int32OfInt
  castInt64 v := v.asInt.bind int64OfInt
  castBool := asBool
  castMilliseconds
    | .timedelta milliseconds => some milliseconds
    | _ => Option.none

instance : LawfulPybind PyValue where
  isNone_iff _ := decide_eq_true_iff
  isFunction_none := rfl
  castString_none := rfl
  castInt32_none := rfl
  castInt64_none := rfl
  castBool_none := rfl
  castMilliseconds_none := rfl
  castString_str _ := rfl
  castInt32_int _ _ := int32OfInt_eq_some
  castInt64_int _ _ := int64OfInt_eq_some
  castBool_bool _ := rfl

end PyValue

/-! ## Kwargs -/

/-- `py::kwargs`: values under distinct keys, in insertion order. -/
abbrev Kwargs (O : Type) := AList fun _ : String => O

variable {O : Type}

/-- The dictionary with `None` passed for each of the keys as well. -/
def Kwargs.withNone [Pybind O] (args : Kwargs O) (keys : List String) : Kwargs O :=
  keys.foldr (fun key args => AList.insert key Pybind.pyNone args) args

theorem Kwargs.lookup_withNone [Pybind O] (args : Kwargs O) (keys : List String)
    (key : String) :
    (args.withNone keys).lookup key = if key ∈ keys then some Pybind.pyNone else
      args.lookup key := by
  induction keys with
  | nil => rfl
  | cons first keys ih =>
    change ((args.withNone keys).insert first Pybind.pyNone).lookup key = _
    by_cases hfirst : key = first
    · rw [hfirst, AList.lookup_insert, if_pos List.mem_cons_self]
    · rw [AList.lookup_insert_ne hfirst, ih]
      simp only [List.mem_cons, hfirst, false_or]

/-! ## Branches -/

/-- `args[key].cast<T>()`. -/
def cast {α : Type} (caster : O → Option α) (v : O) : Except PyError α :=
  match caster v with
  | some x => .ok x
  | none => .error .castError

theorem cast_eq_ok {α : Type} {caster : O → Option α} {v : O} {x : α} :
    cast caster v = .ok x ↔ caster v = some x := by
  unfold cast
  cases caster v with
  | none => exact iff_of_false nofun nofun
  | some y => rw [Except.ok.injEq, Option.some_inj]

theorem cast_eq_error {α : Type} {caster : O → Option α} {v : O} {e : PyError} :
    cast caster v = .error e ↔ caster v = none ∧ e = .castError := by
  unfold cast
  cases caster v with
  | none =>
    rw [Except.error.injEq]
    exact ⟨fun h => ⟨rfl, h.symm⟩, fun h => h.2.symm⟩
  | some y => exact iff_of_false nofun nofun

variable {ι : Type} {σ : ι → Type}

/-- A default from an environment variable, where it is set. -/
def environmentDefault [DecidableEq ι] (setting : ι) (env : Option (σ setting))
    (context : ∀ i, σ i) : ∀ i, σ i :=
  match env with
  | some x => Function.update context setting x
  | none => context

theorem environmentDefault_of_ne [DecidableEq ι] {setting i : ι} (h : i ≠ setting)
    (env : Option (σ setting)) (context : ∀ i, σ i) :
    environmentDefault setting env context i = context i := by
  cases env with
  | none => rfl
  | some x => exact Function.update_of_ne h x context

/-- A branch of a constructor. -/
abbrev ArgBranch (O ι : Type) (σ : ι → Type) := KeyedOverlay.Branch ι String O PyError σ

/-- `if (args.contains(key)) { auto value = args[key].cast<T>(); context.setting(value); }`. -/
def property (key : String) (setting : ι) (caster : O → Option (σ setting)) :
    ArgBranch O ι σ where
  key
  setting
  convert v := (cast caster v).map some

theorem property_convert_ok {key : String} {setting : ι} {caster : O → Option (σ setting)}
    {v : O} {o : Option (σ setting)} :
    (property key setting caster).convert v = .ok o ↔ ∃ x, caster v = some x ∧ o = some x := by
  cases h : cast caster v with
  | error e =>
    simp only [property, h, (cast_eq_error.mp h).1]
    exact iff_of_false nofun nofun
  | ok x =>
    simp only [property, h, cast_eq_ok.mp h]
    exact ⟨fun ho => ⟨x, rfl, (Except.ok.inj ho).symm⟩, fun ⟨y, hy, ho⟩ => by
      rw [ho, ← Option.some.inj hy]; rfl⟩

theorem property_convert_error {key : String} {setting : ι} {caster : O → Option (σ setting)}
    {v : O} {e : PyError} :
    (property key setting caster).convert v = .error e ↔
      caster v = none ∧ e = .castError := by
  rw [← cast_eq_error]
  cases h : cast caster v with
  | error e' =>
    simp only [property, h]
    exact ⟨fun he => congrArg Except.error (Except.error.inj he),
      fun he => congrArg Except.error (Except.error.inj he)⟩
  | ok x =>
    simp only [property, h]
    exact iff_of_false nofun nofun

end AeronPy
