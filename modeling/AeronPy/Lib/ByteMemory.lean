import Mathlib.Data.Int.Order.Basic
import Mathlib.Data.List.GetD
import Mathlib.Tactic.Common

/-!
# Reading and writing windows of a flat memory

A memory is a function from addresses to cells. `read m a n` is the window of `n` cells
from address `a` on, `write m a cs` stores the list `cs` from `a` on. The laws are the
usual ones: a window depends on its own cells only (`read_congr`), a write changes none
outside its window (`write_outside`), and what was written is read back (`read_write_self`,
`read_write_inside`).
-/

namespace ByteMemory

variable {α : Type*}

/-- The `n` cells from address `a` on. -/
def read (m : ℤ → α) (a : ℤ) (n : ℕ) : List α :=
  (List.range n).map fun i : ℕ => m (a + i)

/-- Store the cells `cs` from address `a` on. -/
def write (m : ℤ → α) (a : ℤ) (cs : List α) : ℤ → α :=
  fun x => if a ≤ x then cs.getD (x - a).toNat (m x) else m x

@[simp] theorem length_read (m : ℤ → α) (a : ℤ) (n : ℕ) : (read m a n).length = n := by
  simp [read]

@[simp] theorem read_zero (m : ℤ → α) (a : ℤ) : read m a 0 = [] := rfl

theorem getElem_read (m : ℤ → α) (a : ℤ) {n i : ℕ} (hi : i < (read m a n).length) :
    (read m a n)[i] = m (a + i) := by
  simp [read]

/-- A window depends only on its own cells. -/
theorem read_congr {m m' : ℤ → α} {a : ℤ} {n : ℕ} (h : ∀ i : ℕ, i < n → m (a + i) = m' (a + i)) :
    read m a n = read m' a n :=
  List.map_congr_left fun i hi => h i (List.mem_range.mp hi)

/-- A write leaves every cell outside its window as it was. -/
theorem write_outside {m : ℤ → α} {a x : ℤ} {cs : List α} (h : x < a ∨ a + cs.length ≤ x) :
    write m a cs x = m x := by
  unfold write
  split
  · have hlen : cs.length ≤ (x - a).toNat := by omega
    rw [List.getD_eq_default _ _ hlen]
  · rfl

/-- A write stores its `i`-th cell at `a + i`. -/
theorem write_inside (m : ℤ → α) (a : ℤ) {cs : List α} {i : ℕ} (hi : i < cs.length) :
    write m a cs (a + i) = cs[i] := by
  have hidx : (a + (i : ℤ) - a).toNat = i := by omega
  unfold write
  rw [if_pos (by omega), hidx, List.getD_eq_getElem _ _ hi]

/-- The part of a written list from its `k`-th cell on is read back at `a + k`. -/
theorem read_write_inside (m : ℤ → α) (a : ℤ) (cs ds : List α) :
    read (write m a (cs ++ ds)) (a + cs.length) ds.length = ds := by
  refine List.ext_getElem (by simp) fun i hi hi' => ?_
  have hlt : cs.length + i < (cs ++ ds).length := by
    rw [List.length_append]
    omega
  have hadd : a + (cs.length : ℤ) + (i : ℤ) = a + ((cs.length + i : ℕ) : ℤ) := by omega
  rw [getElem_read, hadd, write_inside m a hlt]
  simp

/-- A window reads back what was written to it. -/
theorem read_write_self (m : ℤ → α) (a : ℤ) (cs : List α) :
    read (write m a cs) a cs.length = cs := by
  have h := read_write_inside m a [] cs
  simpa using h

/-- Address lists that read alike in every memory are the same list. -/
theorem eq_of_forall_map_eq [Nontrivial α] {as bs : List ℤ}
    (h : ∀ m : ℤ → α, as.map m = bs.map m) : as = bs := by
  obtain ⟨x, y, hxy⟩ := exists_pair_ne α
  have hlen : as.length = bs.length := by
    simpa using congrArg List.length (h fun _ => x)
  refine List.ext_getElem hlen fun i hi hi' => ?_
  by_contra hne
  -- the memory that marks only the `i`-th address of `as` tells the two lists apart
  have hget := List.getElem_of_eq (h fun a => if a = as[i] then x else y) (by simpa using hi)
  simp only [List.getElem_map, if_pos trivial, if_neg (Ne.symm hne)] at hget
  exact hxy hget

end ByteMemory
