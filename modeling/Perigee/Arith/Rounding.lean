import Mathlib

/-!
# Rounded quotients and ratios

The lemmas bound rounded quotients by cross-multiplication, and say how a trade against a pool of
two quantities moves their ratio.
-/

namespace Rounding

variable {n d : ℤ}

theorem tdiv_mul_le (hn : 0 ≤ n) (hd : 0 < d) : n.tdiv d * d ≤ n := by
  rw [Int.tdiv_eq_ediv_of_nonneg hn]
  exact Int.ediv_mul_le n hd.ne'

theorem lt_tdiv_add_one_mul (hn : 0 ≤ n) (hd : 0 < d) : n < (n.tdiv d + 1) * d := by
  rw [Int.tdiv_eq_ediv_of_nonneg hn]
  exact Int.lt_ediv_add_one_mul_self n hd

theorem tdiv_nonneg (hn : 0 ≤ n) (hd : 0 < d) : 0 ≤ n.tdiv d := Int.tdiv_nonneg hn hd.le

/-- A quotient rounded down loses nothing exactly when it is exact. -/
theorem le_tdiv_mul_iff_dvd (hn : 0 ≤ n) (hd : 0 < d) : n ≤ n.tdiv d * d ↔ d ∣ n := by
  constructor
  · intro h
    exact ⟨n.tdiv d, by linarith [tdiv_mul_le hn hd]⟩
  · intro h
    rw [Int.tdiv_mul_cancel h]

/-- The quotient rounded up: the truncated one, plus one when there is a remainder. -/
def ceilDiv (n d : ℤ) : ℤ := if n.tmod d = 0 then n.tdiv d else n.tdiv d + 1

theorem ceilDiv_bounds (hn : 0 ≤ n) (hd : 0 < d) :
    n ≤ ceilDiv n d * d ∧ ceilDiv n d * d < n + d := by
  have hmul := Int.tdiv_mul_add_tmod n d
  have hmod : 0 ≤ n.tmod d := Int.tmod_nonneg d hn
  have hlt : n.tmod d < d := Int.tmod_lt_of_pos n hd
  unfold ceilDiv
  split_ifs with h
  · constructor <;> linarith
  · have hpos : 0 < n.tmod d := lt_of_le_of_ne hmod (Ne.symm h)
    constructor <;> linarith

/-- Trading `dx` for `dy` against the pool `(x, y)` at no less than its price does not lower
`x / y`; cross-multiplied, the price condition is exact. -/
theorem ratio_le_after_trade_iff (x y dx dy : ℤ) :
    x * (y + dy) ≤ (x + dx) * y ↔ dy * x ≤ dx * y := by
  constructor <;> intro h <;> nlinarith

/-! ## Newton's iteration for square roots -/

theorem newton_lt_succ_sq {x y : ℤ} (hx : 0 ≤ x) (hy : 0 < y) :
    x < ((x.tdiv y + y).tdiv 2 + 1) * ((x.tdiv y + y).tdiv 2 + 1) := by
  have quotient := lt_tdiv_add_one_mul hx hy
  have nonneg := tdiv_nonneg hx hy
  have half : x.tdiv y + 1 + y ≤ 2 * ((x.tdiv y + y).tdiv 2 + 1) := by
    have := lt_tdiv_add_one_mul (n := x.tdiv y + y) (d := 2) (by omega) (by decide)
    omega
  nlinarith [sq_nonneg (x.tdiv y + 1 - y)]

theorem sq_le_of_newton_ge {x y : ℤ} (hx : 0 ≤ x) (hy : 0 < y)
    (stop : y ≤ (x.tdiv y + y).tdiv 2) : y * y ≤ x := by
  have quotient := tdiv_mul_le hx hy
  have nonneg := tdiv_nonneg hx hy
  have half := tdiv_mul_le (n := x.tdiv y + y) (d := 2) (by omega) (by decide)
  nlinarith

theorem newton_sum_le {x y : ℤ} (hy : 0 < y) (hyx : y ≤ x) : x.tdiv y + y ≤ x + 1 := by
  have quotient := tdiv_mul_le (hy.le.trans hyx) hy
  by_contra above
  nlinarith [mul_nonneg (sub_nonneg.2 (show 1 ≤ y by omega)) (sub_nonneg.2 hyx)]

end Rounding
