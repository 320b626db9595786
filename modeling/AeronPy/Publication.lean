import AeronPy.Pybind

/-!
# Offering data

`publication::offer` and `exclusive_publication::offer` have the same body, `offerData`: the
Python object is wrapped in an `AtomicBuffer`, which goes to the underlying Aeron offer.

The wrapped window is `size * itemsize` bytes from `info.ptr` on, whatever the strides.
`offer_content_iff_contiguous` says for which objects that is the content of the object:
exactly for the `str`s and the C-contiguous buffers.
-/

namespace AeronPy

/-- What `offer` can be given: an exporter of the buffer protocol, a `str`, anything else. -/
inductive PyData where
  | buffer (info : BufferInfo)
  | str (s : PyStr)
  | other

/-- The body of both `offer`s. `aeronOffer` is the call on the underlying Aeron publication,
in the memory as it is at that moment; `characters` is where the `std::string` that
`data.cast<std::string>()` returns keeps its characters. -/
def offerData {α : Type} (aeronOffer : Memory → AtomicBuffer → α) (characters : ℤ)
    (memory : Memory) : PyData → Except PyError α
  | .buffer info => .ok (aeronOffer memory ⟨info.ptr, info.size * info.itemsize⟩)
  | .str s =>
    match s.encode with
    | some bytes =>
      .ok (aeronOffer (ByteMemory.write memory characters bytes) ⟨characters, bytes.length⟩)
    | none => .error .castError
  | .other => .error (.typeError "unsupported data type!")

/-- `publication::offer`. -/
def Publication.offer {α : Type} (aeronOffer : Memory → AtomicBuffer → α) (characters : ℤ)
    (memory : Memory) (data : PyData) : Except PyError α :=
  offerData aeronOffer characters memory data

/-- `exclusive_publication::offer`. -/
def ExclusivePublication.offer {α : Type} (aeronOffer : Memory → AtomicBuffer → α)
    (characters : ℤ) (memory : Memory) (data : PyData) : Except PyError α :=
  offerData aeronOffer characters memory data

/-! ## What reaches Aeron -/

/-- What the underlying offer is handed: the bytes, and the addresses it reads them from. -/
structure Handed where
  bytes : List UInt8
  reads : List ℤ
deriving DecidableEq

/-- The underlying offer reads the whole `AtomicBuffer`. -/
def hand (memory : Memory) (buf : AtomicBuffer) : Handed :=
  ⟨buf.bytes memory, buf.addresses⟩

/-- The content of the offered object: `bytes(memoryview(data))`, or the UTF-8 encoding. -/
def PyData.content (memory : Memory) : PyData → Option (List UInt8)
  | .buffer info => some (info.bytes memory)
  | .str s => s.encode
  | .other => none

/-- The objects whose bytes lie in memory one after the other. -/
def PyData.Contiguous : PyData → Prop
  | .buffer info => info.CContiguous
  | .str _ => True
  | .other => True

/-- Whenever `offer` accepts `data`, whatever memory holds, it hands over exactly the
content of `data`, and reads no byte outside the elements of an exporter. -/
def OffersContent
    (offer : (Memory → AtomicBuffer → Handed) → ℤ → Memory → PyData → Except PyError Handed)
    (data : PyData) : Prop :=
  ∀ characters memory handed, offer hand characters memory data = .ok handed →
    some handed.bytes = data.content memory ∧
      ∀ info, data = .buffer info → ∀ a ∈ handed.reads, a ∈ info.addresses

theorem offerData_buffer (characters : ℤ) (memory : Memory) (info : BufferInfo) :
    offerData hand characters memory (.buffer info) =
      .ok (hand memory ⟨info.ptr, info.size * info.itemsize⟩) := rfl

/-- A `str` is handed over as its UTF-8 encoding. -/
theorem offerData_str {s : PyStr} {content : List UInt8} (h : s.encode = some content)
    (characters : ℤ) (memory : Memory) :
    (offerData hand characters memory (.str s)).map Handed.bytes = .ok content := by
  have hread := ByteMemory.read_write_self memory characters content
  simp only [offerData, h, Except.map, hand, AtomicBuffer.bytes_eq_read, hread]

/-- A C-contiguous buffer is handed over as its content. -/
theorem offerData_contiguous {info : BufferInfo} (h : info.CContiguous) (characters : ℤ)
    (memory : Memory) :
    (offerData hand characters memory (.buffer info)).map Handed.bytes =
      .ok (info.bytes memory) := by
  rw [offerData_buffer, BufferInfo.bytes_of_contiguous h]
  rfl

/-- Over all contents of memory, a buffer is offered faithfully iff it is C-contiguous. -/
theorem offersContent_buffer_iff (info : BufferInfo) :
    OffersContent offerData (.buffer info) ↔ info.CContiguous := by
  constructor
  · intro h
    rw [← info.addresses_eq_iff]
    -- reads that agree in every memory visit the same addresses
    have hread : ∀ memory : Memory, info.bytes memory =
        (AtomicBuffer.mk info.ptr (info.size * info.itemsize)).bytes memory := by
      intro memory
      obtain ⟨hbytes, -⟩ := h 0 memory _ (offerData_buffer 0 memory info)
      exact (Option.some_inj.mp hbytes).symm
    exact ByteMemory.eq_of_forall_map_eq hread
  · intro h characters memory handed hok
    rw [offerData_buffer] at hok
    cases hok
    refine ⟨congrArg some (BufferInfo.bytes_of_contiguous h memory).symm, ?_⟩
    rintro info' ⟨rfl⟩ a ha
    rwa [info.addresses_eq_iff.mpr h]

/-- A `str` is always offered faithfully. -/
theorem offersContent_str (s : PyStr) : OffersContent offerData (.str s) := by
  intro characters memory handed hok
  refine ⟨?_, nofun⟩
  cases henc : s.encode with
  | none =>
    simp only [offerData, henc] at hok
    cases hok
  | some content =>
    have hstr := offerData_str henc characters memory
    rw [hok] at hstr
    cases hstr
    exact henc.symm

theorem offersContent_iff (data : PyData) : OffersContent offerData data ↔ data.Contiguous := by
  cases data with
  | buffer info => exact offersContent_buffer_iff info
  | str s => exact iff_of_true (offersContent_str s) trivial
  | other => exact iff_of_true (fun _ _ _ hok => nomatch hok) trivial

/-- **Offered content.** Both `offer`s hand over the content of an object, and read nothing
else, iff it is a `str` or a C-contiguous buffer; and a `str` is handed over as the same bytes
as any contiguous exporter of its UTF-8 encoding. -/
theorem offer_content_iff_contiguous (data : PyData) :
    (OffersContent Publication.offer data ∧ OffersContent ExclusivePublication.offer data ↔
        data.Contiguous) ∧
      ∀ (s : PyStr) (info : BufferInfo) (characters : ℤ) (memory : Memory),
        info.CContiguous → s.encode = some (info.bytes memory) →
        (Publication.offer hand characters memory (.str s)).map Handed.bytes =
            (Publication.offer hand characters memory (.buffer info)).map Handed.bytes ∧
          (ExclusivePublication.offer hand characters memory (.str s)).map Handed.bytes =
            (ExclusivePublication.offer hand characters memory (.buffer info)).map
              Handed.bytes := by
  refine ⟨?_, fun s info characters memory hinfo henc => ?_⟩
  · have h := offersContent_iff data
    exact ⟨fun ⟨hpub, _⟩ => h.mp hpub, fun hdata => ⟨h.mpr hdata, h.mpr hdata⟩⟩
  · have hsame := (offerData_str henc characters memory).trans
      (offerData_contiguous hinfo characters memory).symm
    exact ⟨hsame, hsame⟩

/-! ## A reversed view -/

/-- `memoryview(b'abc')[::-1]`, of a `bytes` object whose characters are at address `0`. -/
def reversedView : BufferInfo where
  ptr := 2
  itemsize := 1
  format := "B"
  size := 3
  shape := [3]
  strides := [-1]
  size_eq := rfl
  strides_length := rfl

/-- A memory with `b'abc'` at address `0`. -/
def abcMemory : Memory :=
  ByteMemory.write (fun _ => 0) 0 [97, 98, 99]

/-- Offering the reversed view hands over `c` and two bytes after the exporter's last one,
where its content is `cba`. -/
theorem offer_reversedView :
    ∃ handed, Publication.offer hand 100 abcMemory (.buffer reversedView) = .ok handed ∧
      handed.bytes = [99, 0, 0] ∧ reversedView.bytes abcMemory = [99, 98, 97] ∧
      4 ∈ handed.reads ∧ 4 ∉ reversedView.addresses ∧
      ¬ OffersContent Publication.offer (.buffer reversedView) := by
  refine ⟨_, rfl, by decide, by decide, by decide, by decide, fun h => ?_⟩
  obtain ⟨hbytes, -⟩ := h 100 abcMemory _ rfl
  revert hbytes
  decide

end AeronPy
