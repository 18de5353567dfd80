import Mathlib.Algebra.Group.Nat.Defs
import SymbolStore.Word

/-! Powers of two, by their test and as the next one that is large enough. -/

namespace SymbolStore

theorem wordLimit_eq : wordLimit = 2 ^ 64 := rfl

theorem isPowerOfTwo_iff {n : Nat} : isPowerOfTwo n = true ↔ ∃ k, n = 2 ^ k := by
  simp only [isPowerOfTwo, beq_iff_eq, Nat.one_shiftLeft]
  constructor
  · intro power
    exact ⟨_, power.symm⟩
  · intro holds
    rcases holds with ⟨k, rfl⟩
    rw [Nat.log2_two_pow]

theorem isPowerOfTwo_pow (k : Nat) : isPowerOfTwo (2 ^ k) = true :=
  isPowerOfTwo_iff.mpr ⟨k, rfl⟩

theorem isPowerOfTwo_nextPowerOfTwo (n : Nat) : isPowerOfTwo (nextPowerOfTwo n) = true := by
  unfold nextPowerOfTwo
  split
  · decide
  · rw [Nat.one_shiftLeft]
    exact isPowerOfTwo_pow _

theorem le_nextPowerOfTwo (n : Nat) : n ≤ nextPowerOfTwo n := by
  unfold nextPowerOfTwo
  split
  · omega
  · have above : n - 1 < 2 ^ ((n - 1).log2 + 1) := Nat.lt_log2_self
    rw [Nat.one_shiftLeft]
    omega

theorem nextPowerOfTwo_le {n power : Nat} (isPower : isPowerOfTwo power = true)
    (enough : n ≤ power) : nextPowerOfTwo n ≤ power := by
  obtain ⟨k, rfl⟩ := isPowerOfTwo_iff.mp isPower
  unfold nextPowerOfTwo
  split
  · exact Nat.one_le_two_pow
  · have below : n - 1 < 2 ^ k := by omega
    have exponent := (Nat.log2_lt (by omega)).mpr below
    rw [Nat.one_shiftLeft]
    exact Nat.pow_le_pow_right (by decide) exponent

/-- Of two powers of two the smaller divides the greater. -/
theorem isPowerOfTwo_dvd {a b : Nat} (first : isPowerOfTwo a = true)
    (second : isPowerOfTwo b = true) (ordered : a ≤ b) : a ∣ b := by
  obtain ⟨i, rfl⟩ := isPowerOfTwo_iff.mp first
  obtain ⟨j, rfl⟩ := isPowerOfTwo_iff.mp second
  exact Nat.pow_dvd_pow 2 ((Nat.pow_le_pow_iff_right (by decide)).mp ordered)

theorem isPowerOfTwo_pos {n : Nat} (power : isPowerOfTwo n = true) : 0 < n := by
  obtain ⟨k, rfl⟩ := isPowerOfTwo_iff.mp power
  exact Nat.two_pow_pos k

end SymbolStore
