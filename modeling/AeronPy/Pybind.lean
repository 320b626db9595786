import AeronPy.Lib.ByteMemory
import AeronPy.Lib.StridedLayout

/-!
# The Python side of the bindings

What the binding code sees of Python through pybind11:

* `PyError`, the exceptions it raises or lets through;
* `BufferInfo` and `MemoryView`, the buffer protocol. An exporter lives in memory:
  `BufferInfo.bytes memory` is `bytes(memoryview(obj))`;
* `PyStr`, sequences of code points, with the UTF-8 codec.
-/

namespace AeronPy

/-! ## Exceptions -/

/-- The class of a Python exception. -/
inductive ExceptionClass where
  | runtimeError
  | typeError
  | other (name : String)
deriving DecidableEq, Repr

/-- What a call into the bindings raises. -/
inductive PyError where
  /-- `py::cast_error`, thrown by a failed `cast<T>()`. -/
  | castError
  /-- `py::type_error(reason)`. -/
  | typeError (reason : String)
  /-- An exception of the Aeron client or of called Python code, let through. -/
  | foreign (exceptionClass : ExceptionClass)
deriving DecidableEq, Repr

/-- The class Python sees: pybind11 translates `cast_error` to `RuntimeError`. -/
def PyError.exceptionClass : PyError → ExceptionClass
  | .castError => .runtimeError
  | .typeError _ => .typeError
  | .foreign exceptionClass => exceptionClass

/-- A computation that succeeds, succeeded in both of its parts. -/
theorem bind_eq_ok {α β : Type} {x : Except PyError α} {f : α → Except PyError β} {b : β} :
    x >>= f = .ok b ↔ ∃ a, x = .ok a ∧ f a = .ok b := by
  cases x with
  | error e => exact ⟨fun h => (nomatch h), fun ⟨_, h, _⟩ => (nomatch h)⟩
  | ok a => exact ⟨fun h => ⟨a, rfl, h⟩, fun ⟨_, ha, hb⟩ => by cases ha; exact hb⟩

/-! ## Memory and the buffer protocol -/

/-- The memory of the process. -/
abbrev Memory := ℤ → UInt8

/-- Memory tells places apart: there is more than one byte. -/
instance nontrivialByte : Nontrivial UInt8 := ⟨0, 1, by decide⟩

/-- `py::buffer_info`: what `request` returns for an exporter, and what a memoryview is
made from. -/
structure BufferInfo where
  ptr : ℤ
  itemsize : ℕ
  format : String
  size : ℕ
  shape : List ℕ
  strides : List ℤ
  size_eq : size = shape.prod
  strides_length : strides.length = shape.length

namespace BufferInfo

/-- The one-dimensional constructor `buffer_info(ptr, itemsize, format, size)`. -/
def linear (ptr : ℤ) (itemsize : ℕ) (format : String) (size : ℕ) : BufferInfo where
  ptr
  itemsize
  format
  size
  shape := [size]
  strides := [itemsize]
  size_eq := by simp
  strides_length := rfl

/-- The addresses of the exporter's bytes, elements in row-major order. -/
def addresses (info : BufferInfo) : List ℤ :=
  (StridedLayout.byteOffsets info.itemsize info.shape info.strides).map fun o => info.ptr + o

/-- The logical content of the buffer, `bytes(memoryview(obj))`. -/
def bytes (info : BufferInfo) (memory : Memory) : List UInt8 :=
  info.addresses.map memory

/-- The buffer is C-contiguous. -/
def CContiguous (info : BufferInfo) : Prop :=
  StridedLayout.CContiguous info.itemsize info.shape info.strides

instance (info : BufferInfo) : Decidable info.CContiguous :=
  inferInstanceAs (Decidable (StridedLayout.CContiguous _ _ _))

end BufferInfo

/-- A Python `memoryview`: it refers to memory and copies nothing. -/
structure MemoryView where
  info : BufferInfo

/-- Reading a view, `bytes(view)`: whatever the memory it refers to holds now. -/
def MemoryView.bytes (view : MemoryView) (memory : Memory) : List UInt8 :=
  view.info.bytes memory

/-- `aeron::AtomicBuffer`: an address and a length, wrapped without a copy. Its length type
holds the length of every message that Aeron takes. -/
structure AtomicBuffer where
  buffer : ℤ
  length : ℕ
deriving DecidableEq, Repr

namespace AtomicBuffer

/-- The addresses that a read of the whole buffer visits. -/
def addresses (buf : AtomicBuffer) : List ℤ :=
  (StridedLayout.dense buf.length).map fun o => buf.buffer + o

/-- The bytes of the buffer. -/
def bytes (buf : AtomicBuffer) (memory : Memory) : List UInt8 :=
  buf.addresses.map memory

theorem bytes_eq_read (buf : AtomicBuffer) (memory : Memory) :
    buf.bytes memory = ByteMemory.read memory buf.buffer buf.length := by
  simp [bytes, addresses, ByteMemory.read, StridedLayout.dense]

end AtomicBuffer

namespace BufferInfo

/-- A buffer and the linear read of its length visit the same addresses in the same order
iff the buffer is C-contiguous. -/
theorem addresses_eq_iff (info : BufferInfo) :
    info.addresses = (AtomicBuffer.mk info.ptr (info.size * info.itemsize)).addresses ↔
      info.CContiguous := by
  -- both are offsets from the same pointer
  have hinj : Function.Injective fun o : ℤ => info.ptr + o := add_right_injective info.ptr
  rw [addresses, AtomicBuffer.addresses, hinj.list_map.eq_iff, info.size_eq]
  exact StridedLayout.byteOffsets_eq_dense_iff info.strides_length

/-- The content of a C-contiguous buffer is a window of memory. -/
theorem bytes_of_contiguous {info : BufferInfo} (h : info.CContiguous) (memory : Memory) :
    info.bytes memory = (AtomicBuffer.mk info.ptr (info.size * info.itemsize)).bytes memory :=
  congrArg (List.map memory) (info.addresses_eq_iff.mpr h)

theorem linear_contiguous (ptr : ℤ) (itemsize : ℕ) (format : String) (size : ℕ) :
    (linear ptr itemsize format size).CContiguous :=
  Or.inr ⟨fun _ => by simp [linear], trivial⟩

/-- A one-dimensional buffer of single bytes is the window from `ptr` on. -/
theorem bytes_linear (ptr : ℤ) (format : String) (size : ℕ) (memory : Memory) :
    (linear ptr 1 format size).bytes memory = ByteMemory.read memory ptr size := by
  rw [bytes_of_contiguous (linear_contiguous ptr 1 format size), AtomicBuffer.bytes_eq_read]
  simp [linear]

end BufferInfo

/-! ## Strings -/

/-- A Python `str`: code points, lone surrogates included. -/
structure PyStr where
  codePoints : List (Fin 0x110000)
deriving DecidableEq

/-- The UTF-8 bytes of one code point; a surrogate has none. -/
def encodeCodePoint (c : Fin 0x110000) : Option (List UInt8) :=
  if h : c.val.isValidChar then some (String.utf8EncodeChar (Char.ofNatAux c.val h)) else none

/-- `s.encode('utf-8')`, which is also what `cast<std::string>()` stores. -/
def PyStr.encode (s : PyStr) : Option (List UInt8) :=
  (s.codePoints.mapM encodeCodePoint).map List.flatten

/-- A `str` without lone surrogates, from its characters. -/
def PyStr.ofChars (cs : List Char) : PyStr :=
  ⟨cs.map fun c => ⟨c.toNat, by
    rcases c.valid with h | ⟨_, h⟩
    · exact lt_trans h (by norm_num)
    · exact h⟩⟩

/-- A `str` without lone surrogates always has an encoding, the UTF-8 one. -/
theorem PyStr.encode_ofChars (cs : List Char) :
    (PyStr.ofChars cs).encode = some (cs.flatMap String.utf8EncodeChar) := by
  have hchar : ∀ c : Char, ∀ h, encodeCodePoint ⟨c.toNat, h⟩ = some (String.utf8EncodeChar c) := by
    intro c h
    -- a `Char` is never a surrogate
    have hvalid : c.toNat.isValidChar := c.valid
    unfold encodeCodePoint
    rw [dif_pos hvalid]
    rfl
  have hmap : (PyStr.ofChars cs).codePoints.mapM encodeCodePoint =
      some (cs.map String.utf8EncodeChar) := by
    induction cs with
    | nil => rfl
    | cons c cs ih =>
      simp only [PyStr.ofChars, List.map_cons, List.mapM_cons] at ih ⊢
      rw [hchar, ih]
      rfl
  rw [PyStr.encode, hmap, List.flatMap_def]
  rfl

end AeronPy
