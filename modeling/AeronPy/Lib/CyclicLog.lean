import AeronPy.Lib.ByteMemory
import Mathlib.Tactic.Ring

/-!
# A byte log of equal partitions, reused cyclically

Positions in the stream grow without bound; position `p` is kept in partition
`p / T % k` of a log of `k` partitions of `T` bytes, at offset `p % T` in it. Two windows of
the stream that are at most one lap of `k * T` bytes apart share no byte of the log
(`apart_of_lap`), so that writing one of them leaves the other as it was (`read_write_apart`);
one lap later the same bytes are used again (`address_add_lap`).
-/

namespace CyclicLog

variable {α : Type*}

/-- The address of the partition that position `p` falls into. -/
def partitionAddress (base : ℤ) (T k p : ℕ) : ℤ := base + ((p / T % k * T : ℕ) : ℤ)

/-- The address of position `p` in a log at `base`. -/
def address (base : ℤ) (T k p : ℕ) : ℤ := partitionAddress base T k p + ((p % T : ℕ) : ℤ)

theorem address_eq (base : ℤ) (T k p : ℕ) :
    address base T k p = base + ((p % (T * k) : ℕ) : ℤ) := by
  rw [address, partitionAddress, Nat.mod_mul, Nat.mul_comm (p / T % k) T]
  push_cast
  ring

/-- Inside a partition, offsets advance with positions. -/
theorem offset_add {T p d : ℕ} (h : p % T + d < T) : (p + d) % T = p % T + d := by
  rw [Nat.add_mod, Nat.mod_eq_of_lt (show d < T by omega), Nat.mod_eq_of_lt h]

/-- Inside a partition, addresses advance with positions. -/
theorem address_add {T p d : ℕ} (base : ℤ) (k : ℕ) (h : p % T + d < T) :
    address base T k (p + d) = address base T k p + d := by
  have hd : d % T = d := Nat.mod_eq_of_lt (by omega)
  have hdiv : (p + d) / T = p / T := by
    rw [Nat.add_div (by omega), hd, Nat.div_eq_of_lt (show d < T by omega), if_neg (by omega)]
    omega
  rw [address, address, partitionAddress, partitionAddress, hdiv, offset_add h]
  push_cast
  ring

/-- One lap later the same bytes of the log are used. -/
theorem address_add_lap (base : ℤ) (T k p : ℕ) :
    address base T k (p + T * k) = address base T k p := by
  rw [address_eq, address_eq, Nat.add_mod_right]

/-- The windows of `m` bytes from position `p` on and of `n` bytes from `q` on share no byte of
a log of `C` bytes. -/
def Apart (C p m q n : ℕ) : Prop :=
  ∀ i < m, ∀ j < n, (p + i) % C ≠ (q + j) % C

/-- A window that starts after another one, and ends at most one lap after the other starts. -/
theorem apart_of_lap {C p m q n : ℕ} (hbefore : q + n ≤ p) (hlap : p + m ≤ q + C) :
    Apart C p m q n := by
  intro i hi j hj heq
  -- two positions in the same place are a multiple of a lap apart
  have hdvd : C ∣ p + i - (q + j) := Nat.dvd_of_mod_eq_zero (Nat.sub_mod_eq_zero_of_mod_eq heq)
  have hzero : p + i - (q + j) = 0 := Nat.eq_zero_of_dvd_of_lt hdvd (by omega)
  omega

/-- The `i`-th byte of one window is the `j`-th of another one in the log. -/
theorem address_add_eq_iff {base : ℤ} {T k p i q j : ℕ} (hp : p % T + i < T) (hq : q % T + j < T) :
    address base T k p + i = address base T k q + j ↔ (p + i) % (T * k) = (q + j) % (T * k) := by
  rw [← address_add base k hp, ← address_add base k hq, address_eq, address_eq, add_right_inj,
    Nat.cast_inj]

/-- Writing a window leaves every window as it was that shares no byte of the log with it. -/
theorem read_write_apart {m : ℤ → α} {base : ℤ} {T k p q n : ℕ} {cs : List α}
    (hp : p % T + cs.length ≤ T) (hq : q % T + n ≤ T) (h : Apart (T * k) p cs.length q n) :
    ByteMemory.read (ByteMemory.write m (address base T k p) cs) (address base T k q) n =
      ByteMemory.read m (address base T k q) n := by
  refine ByteMemory.read_congr fun j hj => ByteMemory.write_outside ?_
  by_contra hinside
  -- the `j`-th byte that is read would be the `i`-th one that was written
  obtain ⟨i, hi⟩ : ∃ i : ℕ, address base T k p + i = address base T k q + j :=
    ⟨(address base T k q + j - address base T k p).toNat, by omega⟩
  have hi' : i < cs.length := by omega
  have hplace := (address_add_eq_iff (by omega) (by omega)).mp hi
  exact h i hi' j hj hplace

end CyclicLog
