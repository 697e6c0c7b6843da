import Mathlib

/-!
# Long division in a register

Binary long division brings down one bit of the dividend at a time and keeps the remainder in a
register of `w` bits.  Doubling the remainder loses its top bit when the divisor is above half the
register: the quotient is never too large, and it is exact just when no bit is lost.
-/

namespace LongDivision

/-- Bring down the lowest `n` bits of `low`, from the highest. -/
def divide (w low d : ℕ) : ℕ → ℕ → ℕ → ℕ
  | 0, _, quotient => quotient
  | i + 1, remainder, quotient =>
    let remainder := 2 * remainder % 2 ^ w + low / 2 ^ i % 2
    if d ≤ remainder then divide w low d i (remainder - d) (quotient + 2 ^ i)
    else divide w low d i remainder quotient

theorem mod_two_pow_succ (low i : ℕ) :
    low % 2 ^ (i + 1) = low / 2 ^ i % 2 * 2 ^ i + low % 2 ^ i := by
  rw [pow_succ, Nat.mod_mul]
  ring

variable {w low d : ℕ}

/-- What is left to divide: the remainder, and the bits that are not brought down yet. -/
def dividend (low i r : ℕ) : ℕ := r * 2 ^ i + low % 2 ^ i

theorem dividend_succ (low i r : ℕ) :
    dividend low (i + 1) r = dividend low i (2 * r + low / 2 ^ i % 2) := by
  rw [dividend, dividend, mod_two_pow_succ]
  ring

theorem dividend_sub {r : ℕ} (low i : ℕ) (le : d ≤ r) :
    dividend low i r = dividend low i (r - d) + d * 2 ^ i := by
  obtain ⟨k, rfl⟩ := Nat.exists_eq_add_of_le le
  rw [dividend, dividend, Nat.add_sub_cancel_left]
  ring

theorem dividend_lt {r : ℕ} (low i : ℕ) (lt : r < d) : dividend low i r < 2 ^ i * d := by
  have rest : low % 2 ^ i < 2 ^ i := Nat.mod_lt _ (by positivity)
  calc dividend low i r < r * 2 ^ i + 2 ^ i := by rw [dividend]; omega
    _ = 2 ^ i * (r + 1) := by ring
    _ ≤ 2 ^ i * d := by gcongr; omega

theorem quotient_step {r : ℕ} (low i : ℕ) (le : d ≤ r) (pos : 0 < d) :
    2 ^ i + dividend low i (r - d) / d = dividend low i r / d := by
  rw [dividend_sub low i le, Nat.add_mul_div_left _ _ pos, add_comm]

theorem divide_le (n : ℕ) {r q : ℕ} (lt : r < d) :
    divide w low d n r q ≤ q + dividend low n r / d := by
  induction n generalizing r q with
  | zero => exact Nat.le_add_right _ _
  | succ i ih =>
    have grows : dividend low i (2 * r % 2 ^ w + low / 2 ^ i % 2) / d ≤
        dividend low i (2 * r + low / 2 ^ i % 2) / d := by
      unfold dividend
      gcongr
      exact Nat.mod_le _ _
    have bound : 2 * r % 2 ^ w + low / 2 ^ i % 2 ≤ 2 * r + 1 := by
      have := Nat.mod_le (2 * r) (2 ^ w)
      omega
    rw [divide, dividend_succ]
    generalize 2 * r % 2 ^ w + low / 2 ^ i % 2 = r' at *
    by_cases le : d ≤ r'
    · simp only [le, if_true]
      have step := quotient_step low i le (by omega)
      have := ih (r := r' - d) (q := q + 2 ^ i) (by omega)
      omega
    · simp only [le, if_false]
      have := ih (r := r') (q := q) (by omega)
      omega

/-- Each remainder of `x` without its lowest bits can be doubled in the register. -/
def Fits (w d x n : ℕ) : Prop := ∀ i < n, 2 * (x / 2 ^ (i + 1) % d) < 2 ^ w

instance decidableFits (x n : ℕ) : Decidable (Fits w d x n) := Nat.decidableBallLT _ _

theorem fits_succ {r i : ℕ} (lt : r < d) :
    Fits w d (dividend low (i + 1) r) (i + 1) ↔
      2 * r < 2 ^ w ∧ Fits w d (dividend low i (2 * r + low / 2 ^ i % 2)) i := by
  have top : dividend low (i + 1) r / 2 ^ (i + 1) = r := by
    rw [dividend, mul_comm, Nat.mul_add_div (by positivity), Nat.mod_div_self, add_zero]
  unfold Fits
  rw [Nat.forall_lt_succ_right, top, Nat.mod_eq_of_lt lt, dividend_succ, and_comm]

theorem fits_sub {r i : ℕ} (le : d ≤ r) :
    Fits w d (dividend low i r) i ↔ Fits w d (dividend low i (r - d)) i := by
  refine forall₂_congr fun j lt => ?_
  have power : d * 2 ^ i = 2 ^ (j + 1) * (d * 2 ^ (i - (j + 1))) := by
    rw [mul_left_comm, ← pow_add, Nat.add_sub_cancel' lt]
  rw [dividend_sub low i le, power, Nat.add_mul_div_left _ _ (by positivity),
    Nat.add_mul_mod_self_left]

/-- **Long division is exact just when no doubled remainder leaves the register**: a bit of the
quotient that is missed is worth more than all later bits. -/
theorem divide_eq_iff (wide : d ≤ 2 ^ w) (n : ℕ) {r q : ℕ} (lt : r < d) :
    divide w low d n r q = q + dividend low n r / d ↔ Fits w d (dividend low n r) n := by
  induction n generalizing r q with
  | zero => simp [divide, dividend, Fits, Nat.mod_one, Nat.div_eq_of_lt lt]
  | succ i ih =>
    rw [fits_succ lt, divide, dividend_succ]
    by_cases fits : 2 * r < 2 ^ w
    · rw [Nat.mod_eq_of_lt fits]
      simp only [fits, true_and]
      by_cases le : d ≤ 2 * r + low / 2 ^ i % 2
      · simp only [le, if_true]
        rw [← quotient_step low i le (by omega), fits_sub le, ← ih (q := q + 2 ^ i) (by omega),
          add_assoc]
      · simp only [le, if_false]
        exact ih (by omega)
    · -- the true quotient has the bit `2 ^ i`, the register shows a remainder below the divisor
      have dropped : 2 * r % 2 ^ w = 2 * r - 2 ^ w := by
        rw [Nat.mod_eq_sub_mod (by omega), Nat.mod_eq_of_lt (by omega)]
      have less : 2 * r % 2 ^ w + low / 2 ^ i % 2 < d := by omega
      have missed : divide w low d i _ q ≤ _ := divide_le i less
      have below := (Nat.div_lt_iff_lt_mul (by omega)).2 (dividend_lt low i less)
      have step := quotient_step low i (show d ≤ 2 * r + low / 2 ^ i % 2 by omega) (by omega)
      simp only [less.not_ge, if_false, fits, false_and, iff_false, ← step]
      exact (missed.trans_lt (by gcongr; exact below.trans_le (Nat.le_add_right _ _))).ne

theorem fits_of_half (half : 2 * d ≤ 2 ^ w) (pos : 0 < d) (x n : ℕ) : Fits w d x n := by
  intro i _
  have := Nat.mod_lt (x / 2 ^ (i + 1)) pos
  omega

end LongDivision
