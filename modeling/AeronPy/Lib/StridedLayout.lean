import Mathlib.Algebra.BigOperators.Group.List.Basic
import Mathlib.Algebra.Order.Group.Int
import Mathlib.Tactic.Ring
import Mathlib.Tactic.Linarith

/-!
# Row-major strided layouts

An `n`-dimensional buffer places the element with indices `i₀, …, iₙ₋₁` at the offset
`Σ iₖ · strideₖ`, each element being `itemsize` consecutive bytes. `byteOffsets` lists the
offsets of all the bytes of the buffer, elements in row-major order; `dense n` is what a
linear read of `n` bytes visits.

The main result `byteOffsets_eq_dense_iff` says when the two are the same: exactly for the
C-contiguous layouts, in which every dimension of more than one element steps by the size of
the dimensions inside it (or the buffer has no byte at all).
-/

namespace StridedLayout

/-- The multi-indices of a shape in row-major order, the last index running fastest. -/
def indices : List ℕ → List (List ℕ)
  | [] => [[]]
  | n :: shape => (List.range n).flatMap fun i => (indices shape).map (i :: ·)

/-- The offset `Σ indexₖ · strideₖ` of one element. -/
def offset (strides : List ℤ) (index : List ℕ) : ℤ :=
  (List.zipWith (fun (i : ℕ) (s : ℤ) => i * s) index strides).sum

/-- The offsets of all the bytes: the elements in row-major order, each with its
`itemsize` bytes. -/
def byteOffsets (itemsize : ℕ) (shape : List ℕ) (strides : List ℤ) : List ℤ :=
  (indices shape).flatMap fun index =>
    (List.range itemsize).map fun b : ℕ => offset strides index + b

/-- The offsets that a linear read of `n` bytes visits. -/
def dense (n : ℕ) : List ℤ := (List.range n).map fun i : ℕ => (i : ℤ)

/-- Every dimension of more than one element steps by the size of what is inside it. -/
def DenseStrides (itemsize : ℕ) : List ℕ → List ℤ → Prop
  | n :: shape, s :: strides =>
    (1 < n → s = ((shape.prod * itemsize : ℕ) : ℤ)) ∧ DenseStrides itemsize shape strides
  | _, _ => True

/-- C-contiguity of a buffer: it has no byte at all, or its strides are the dense ones. -/
def CContiguous (itemsize : ℕ) (shape : List ℕ) (strides : List ℤ) : Prop :=
  shape.prod * itemsize = 0 ∨ DenseStrides itemsize shape strides

instance decidableDenseStrides (itemsize : ℕ) :
    ∀ shape strides, Decidable (DenseStrides itemsize shape strides)
  | [], _ => isTrue trivial
  | _ :: _, [] => isTrue trivial
  | _ :: shape, _ :: strides =>
    have := decidableDenseStrides itemsize shape strides
    inferInstanceAs (Decidable (_ ∧ _))

instance (itemsize : ℕ) (shape : List ℕ) (strides : List ℤ) :
    Decidable (CContiguous itemsize shape strides) :=
  inferInstanceAs (Decidable (_ ∨ _))

/-! ## The recursion over the dimensions -/

@[simp] theorem offset_nil (strides : List ℤ) : offset strides [] = 0 := by
  simp [offset]

@[simp] theorem offset_cons (s : ℤ) (strides : List ℤ) (i : ℕ) (index : List ℕ) :
    offset (s :: strides) (i :: index) = i * s + offset strides index := by
  simp [offset]

@[simp] theorem length_dense (n : ℕ) : (dense n).length = n := by
  simp [dense]

theorem getElem_dense {n i : ℕ} (hi : i < (dense n).length) : (dense n)[i] = i := by
  simp [dense]

/-- A scalar buffer is one element at offset `0`. -/
theorem byteOffsets_nil (itemsize : ℕ) (strides : List ℤ) :
    byteOffsets itemsize [] strides = dense itemsize := by
  simp [byteOffsets, indices, dense]

/-- The outermost dimension repeats the layout inside it, shifted by its stride. -/
theorem byteOffsets_cons (itemsize n : ℕ) (shape : List ℕ) (s : ℤ) (strides : List ℤ) :
    byteOffsets itemsize (n :: shape) (s :: strides) =
      (List.range n).flatMap fun i : ℕ =>
        (byteOffsets itemsize shape strides).map fun o => i * s + o := by
  simp only [byteOffsets, indices, List.flatMap_assoc, List.flatMap_map, List.map_flatMap,
    List.map_map, offset_cons]
  refine List.flatMap_congr fun i _ => List.flatMap_congr fun index _ => ?_
  exact List.map_congr_left fun b _ => by
    simp only [Function.comp_apply]
    ring

theorem length_indices (shape : List ℕ) : (indices shape).length = shape.prod := by
  induction shape with
  | nil => rfl
  | cons n shape ih => simp [indices, List.length_flatMap, ih]

@[simp] theorem length_byteOffsets (itemsize : ℕ) (shape : List ℕ) (strides : List ℤ) :
    (byteOffsets itemsize shape strides).length = shape.prod * itemsize := by
  simp [byteOffsets, List.length_flatMap, length_indices]

/-- A linear read of `n * l` bytes is `n` linear reads of `l` bytes. -/
theorem dense_mul (n l : ℕ) :
    dense (n * l) = (List.range n).flatMap fun i : ℕ => (dense l).map fun o => i * (l : ℤ) + o := by
  induction n with
  | zero => simp [dense]
  | succ n ih =>
    -- the last read goes on where the others end
    have hsplit : dense ((n + 1) * l) =
        dense (n * l) ++ (dense l).map fun o => n * (l : ℤ) + o := by
      simp only [dense, Nat.succ_mul, List.range_add, List.map_append, List.map_map]
      congr 1
    rw [hsplit, ih, List.range_succ, List.flatMap_append, List.flatMap_singleton]

/-- Concatenations of blocks of the same lengths agree iff the blocks do. -/
theorem flatMap_eq_iff {α β : Type*} {f g : α → List β} {l : List α}
    (h : ∀ x ∈ l, (f x).length = (g x).length) :
    l.flatMap f = l.flatMap g ↔ ∀ x ∈ l, f x = g x := by
  constructor
  · intro heq
    induction l with
    | nil => simp
    | cons x l ih =>
      rw [List.flatMap_cons, List.flatMap_cons] at heq
      obtain ⟨hx, hl⟩ := List.append_inj heq (h x List.mem_cons_self)
      have hrest := ih (fun y hy => h y (List.mem_cons_of_mem x hy)) hl
      exact List.forall_mem_cons.mpr ⟨hx, hrest⟩
  · exact List.flatMap_congr

/-! ## Linear reads and C-contiguity -/

/-- Shifting a linear read by equal offsets, one stride at a time. -/
theorem map_dense_eq_iff {l : ℕ} (hl : 0 < l) {s t : ℤ} :
    ((dense l).map fun o => s + o) = ((dense l).map fun o => t + o) ↔ s = t := by
  constructor
  · intro h
    have h0 : 0 < ((dense l).map fun o => s + o).length := by simpa using hl
    have hget := List.getElem_of_eq h h0
    simpa [getElem_dense] using hget
  · rintro rfl
    rfl

/-- For a buffer with at least one byte, the linear read visits its bytes in row-major
order iff its strides are the dense ones. The induction is on the dimensions, from the
outermost in: block `0` of the outermost one is the layout inside it, and block `1` pins
the stride. -/
theorem byteOffsets_eq_dense_iff_denseStrides {itemsize : ℕ} :
    ∀ {shape : List ℕ} {strides : List ℤ}, strides.length = shape.length →
      0 < shape.prod * itemsize →
      (byteOffsets itemsize shape strides = dense (shape.prod * itemsize) ↔
        DenseStrides itemsize shape strides)
  | [], strides, _, _ => by simp [byteOffsets_nil, DenseStrides]
  | n :: shape, s :: strides, hlen, hpos => by
    have hn : 0 < n := by
      rw [List.prod_cons, mul_assoc] at hpos
      exact Nat.pos_of_mul_pos_right hpos
    have hin : 0 < shape.prod * itemsize := by
      rw [List.prod_cons, mul_assoc] at hpos
      exact Nat.pos_of_mul_pos_left hpos
    have ih : byteOffsets itemsize shape strides = dense (shape.prod * itemsize) ↔
        DenseStrides itemsize shape strides :=
      byteOffsets_eq_dense_iff_denseStrides (by simpa using hlen) hin
    -- the bytes of the outermost dimension come in blocks of `l`
    set l := shape.prod * itemsize with hl
    have hblocks : byteOffsets itemsize (n :: shape) (s :: strides) = dense (n * l) ↔
        ∀ i ∈ List.range n, ((byteOffsets itemsize shape strides).map fun o => (i : ℤ) * s + o) =
          (dense l).map fun o => (i : ℤ) * l + o := by
      rw [byteOffsets_cons, dense_mul]
      exact flatMap_eq_iff fun i _ => by simp [hl]
    rw [List.prod_cons, mul_assoc, ← hl, hblocks]
    constructor
    · -- block `0` is not shifted, so the layout inside is dense
      intro h
      have hinner : byteOffsets itemsize shape strides = dense l := by
        simpa using h 0 (List.mem_range.mpr hn)
      -- block `1` is shifted by one stride
      refine ⟨fun h1 => ?_, ih.mp hinner⟩
      have hblock := h 1 (List.mem_range.mpr h1)
      rw [hinner, map_dense_eq_iff hin, Nat.cast_one, one_mul, one_mul] at hblock
      exact hblock
    · rintro ⟨hs, hdense⟩ i hi
      rw [ih.mpr hdense, map_dense_eq_iff hin]
      have hi' := List.mem_range.mp hi
      by_cases h1 : 1 < n
      · rw [hs h1]
      · -- a dimension of one element has block `0` only
        have hi0 : i = 0 := by omega
        simp [hi0]

/-- **Contiguity.** The bytes of a buffer in row-major order are the ones a linear read
of its length visits iff the buffer is C-contiguous. -/
theorem byteOffsets_eq_dense_iff {itemsize : ℕ} {shape : List ℕ} {strides : List ℤ}
    (hlen : strides.length = shape.length) :
    byteOffsets itemsize shape strides = dense (shape.prod * itemsize) ↔
      CContiguous itemsize shape strides := by
  unfold CContiguous
  rcases Nat.eq_zero_or_pos (shape.prod * itemsize) with h0 | hpos
  · have hnil : byteOffsets itemsize shape strides = [] :=
      List.eq_nil_of_length_eq_zero (by rw [length_byteOffsets, h0])
    simp [h0, hnil, dense]
  · rw [byteOffsets_eq_dense_iff_denseStrides hlen hpos]
    simp [Nat.ne_of_gt hpos]

end StridedLayout
