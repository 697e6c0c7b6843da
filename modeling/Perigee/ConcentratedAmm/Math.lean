import Perigee.Soroban.Outcome
import Perigee.Arith.LongDivision

/-!
# The arithmetic of the concentrated AMM

The functions of `contracts/concentrated_amm/src/math.rs`: a wide multiply-divide, the square root
of the price at a tick as a Q64.64 number, and the token amounts and price moves of a range.
-/

namespace ConcentratedAmm

open Soroban LongDivision

inductive MathError where
  | overflow
  | divisionByZero
  | invalidPrice
  deriving DecidableEq

def q64 : ℕ := 2 ^ 64

/-- The high and the low 128 bits of a product, from its four partial products. -/
def wideMul (a b : ℕ) : ℕ × ℕ :=
  let aLow := a % 2 ^ 64
  let aHigh := a / 2 ^ 64
  let bLow := b % 2 ^ 64
  let bHigh := b / 2 ^ 64
  let p0 := aLow * bLow
  let p1 := aLow * bHigh
  let p2 := aHigh * bLow
  let p3 := aHigh * bHigh
  let mid := p1 % 2 ^ 64 + p2 % 2 ^ 64 + p0 / 2 ^ 64
  (p3 + p1 / 2 ^ 64 + p2 / 2 ^ 64 + mid / 2 ^ 64, mid * 2 ^ 64 % 2 ^ 128 + p0 % 2 ^ 64)

/-- `a * b / d`; a product of more than 128 bits is divided by long division in a 128-bit
register. -/
def mulDivU128 (a b d : ℕ) : Outcome MathError ℕ :=
  if d = 0 then .error (.err .divisionByZero)
  else if a * b < 2 ^ 128 then .ok (a * b / d)
  else if d ≤ (wideMul a b).1 then .error (.err .overflow)
  else .ok (divide 128 (wideMul a b).2 d 128 (wideMul a b).1 0)

/-- The price ratio of one tick, 1.00005 in Q64.64. -/
def tickBase : ℕ := 18447669818844880896

/-- The odd step of the square-and-multiply loop. -/
def multiplyIfOdd (t ratio base : ℕ) : Outcome MathError ℕ :=
  if t % 2 = 1 then mulDivU128 ratio base q64 else pure ratio

/-- The loop of `getSqrtRatioAtTick`; a `u32` exponent is used up in 32 iterations. -/
def sqrtRatioLoop : ℕ → ℕ → ℕ → ℕ → Outcome MathError ℕ
  | 0, ratio, _, _ => pure ratio
  | n + 1, ratio, base, t =>
    if 0 < t then do
      let ratio ← multiplyIfOdd t ratio base
      let base ← mulDivU128 base base q64
      sqrtRatioLoop n ratio base (t / 2)
    else pure ratio

def getSqrtRatioAtTick (tick : ℤ) : Outcome MathError ℕ := do
  let absTick ← i32 |tick|
  let ratio ← sqrtRatioLoop 32 q64 tickBase absTick.toNat
  if tick < 0 then mulDivU128 q64 q64 ratio else pure ratio

def getAmount0Delta (sqrtRatioA sqrtRatioB liquidity : ℕ) : Outcome MathError ℕ := do
  let lower := if sqrtRatioA < sqrtRatioB then sqrtRatioA else sqrtRatioB
  let upper := if sqrtRatioA < sqrtRatioB then sqrtRatioB else sqrtRatioA
  let num1 ← mulDivU128 liquidity q64 upper
  let num2 ← checkedSub upper lower .overflow
  mulDivU128 num1 num2 lower

def getAmount1Delta (sqrtRatioA sqrtRatioB liquidity : ℕ) : Outcome MathError ℕ := do
  let lower := if sqrtRatioA < sqrtRatioB then sqrtRatioA else sqrtRatioB
  let upper := if sqrtRatioA < sqrtRatioB then sqrtRatioB else sqrtRatioA
  let diff ← checkedSub upper lower .overflow
  mulDivU128 liquidity diff q64

def getNextSqrtPriceFromInput (sqrtPrice liquidity amountIn : ℕ) (zeroForOne : Bool) :
    Outcome MathError ℕ :=
  if amountIn = 0 then pure sqrtPrice
  else if zeroForOne then do
    let priceTimesDelta ← mulDivU128 amountIn sqrtPrice q64
    let den ← checkedAddU128 liquidity priceTimesDelta .overflow
    mulDivU128 sqrtPrice liquidity den
  else do
    let delta ← mulDivU128 amountIn q64 liquidity
    checkedAddU128 sqrtPrice delta .overflow

/-! ## The wide multiply-divide -/

theorem shift_mod (mid : ℕ) : mid * 2 ^ 64 % 2 ^ 128 = mid % 2 ^ 64 * 2 ^ 64 := by
  rw [show (2 : ℕ) ^ 128 = 2 ^ 64 * 2 ^ 64 by norm_num, Nat.mul_mod_mul_right]

theorem wideMul_eq (a b : ℕ) : (wideMul a b).1 * 2 ^ 128 + (wideMul a b).2 = a * b := by
  have product : a * b = a / 2 ^ 64 * (b / 2 ^ 64) * 2 ^ 128 +
      (a % 2 ^ 64 * (b / 2 ^ 64) + a / 2 ^ 64 * (b % 2 ^ 64)) * 2 ^ 64 +
      a % 2 ^ 64 * (b % 2 ^ 64) := by
    have ha := Nat.div_add_mod a (2 ^ 64)
    have hb := Nat.div_add_mod b (2 ^ 64)
    calc a * b = (2 ^ 64 * (a / 2 ^ 64) + a % 2 ^ 64) * (2 ^ 64 * (b / 2 ^ 64) + b % 2 ^ 64) := by
          rw [ha, hb]
      _ = _ := by ring
  rw [product]
  unfold wideMul
  simp only [shift_mod]
  omega

theorem wideMul_low_lt (a b : ℕ) : (wideMul a b).2 < 2 ^ 128 := by
  unfold wideMul
  simp only [shift_mod]
  omega

variable {a b d r : ℕ}

theorem wideMul_dividend (a b : ℕ) :
    dividend (wideMul a b).2 128 (wideMul a b).1 = a * b := by
  rw [dividend, Nat.mod_eq_of_lt (wideMul_low_lt a b), wideMul_eq]

theorem mulDivU128_le (h : mulDivU128 a b d = .ok r) : 0 < d ∧ r ≤ a * b / d := by
  unfold mulDivU128 at h
  split_ifs at h with zero small overflow
  · obtain rfl := Except.ok.inj h
    exact ⟨Nat.pos_of_ne_zero zero, le_rfl⟩
  · obtain rfl := Except.ok.inj h
    refine ⟨Nat.pos_of_ne_zero zero, (divide_le 128 (not_le.1 overflow)).trans ?_⟩
    rw [zero_add, wideMul_dividend]

/-- The loop leaves the quotient just when no bit of a remainder is dropped. -/
theorem loop_eq_iff (wide : d ≤ 2 ^ 128) (low : (wideMul a b).1 < d) :
    divide 128 (wideMul a b).2 d 128 (wideMul a b).1 0 = a * b / d ↔ Fits 128 d (a * b) 128 := by
  rw [← wideMul_dividend a b, ← divide_eq_iff wide 128 low, zero_add]

theorem quotient_lt_iff (pos : 0 < d) : a * b / d < 2 ^ 128 ↔ (wideMul a b).1 < d := by
  have product := wideMul_eq a b
  have low := wideMul_low_lt a b
  rw [Nat.div_lt_iff_lt_mul pos]
  omega

theorem mulDivU128_quotient (wide : d ≤ 2 ^ 128)
    (exact : a * b < 2 ^ 128 ∨ Fits 128 d (a * b) 128) (h : mulDivU128 a b d = .ok r) :
    r = a * b / d := by
  unfold mulDivU128 at h
  split_ifs at h with zero small overflow
  · exact (Except.ok.inj h).symm
  · obtain rfl := Except.ok.inj h
    exact (loop_eq_iff wide (not_le.1 overflow)).2 (exact.resolve_left small)

theorem mulDivU128_ok_iff (half : d ≤ 2 ^ 127) :
    mulDivU128 a b d = .ok r ↔ 0 < d ∧ a * b / d < 2 ^ 128 ∧ a * b / d = r := by
  unfold mulDivU128
  split_ifs with zero small overflow
  · exact iff_of_false (fun h => nomatch h) fun h => h.1.ne' zero
  · have pos := Nat.pos_of_ne_zero zero
    have fits : a * b / d < 2 ^ 128 := (Nat.div_le_self _ _).trans_lt small
    simp only [pos, fits, true_and, Except.ok.injEq]
  · have pos := Nat.pos_of_ne_zero zero
    exact iff_of_false (fun h => nomatch h) fun h => overflow.not_gt ((quotient_lt_iff pos).1 h.2.1)
  · have pos := Nat.pos_of_ne_zero zero
    have low := not_le.1 overflow
    rw [(loop_eq_iff (by omega) low).2 (fits_of_half (by omega) pos _ _)]
    simp only [pos, (quotient_lt_iff pos).2 low, true_and, Except.ok.injEq]

/-- **The result is exact just when** the product fits into 128 bits, or the quotient does not, or
no bit of a remainder is dropped. -/
theorem mulDivU128_exact_iff (pos : 0 < d) (wide : d < 2 ^ 128) :
    mulDivU128 a b d =
        (if a * b / d < 2 ^ 128 then .ok (a * b / d) else .error (.err .overflow)) ↔
      a * b < 2 ^ 128 ∨ 2 ^ 128 ≤ a * b / d ∨ Fits 128 d (a * b) 128 := by
  unfold mulDivU128
  rw [if_neg pos.ne']
  by_cases small : a * b < 2 ^ 128
  · simp only [small, (Nat.div_le_self _ _).trans_lt small, if_true, true_or]
  · by_cases low : (wideMul a b).1 < d
    · have fits := (quotient_lt_iff pos).2 low
      simp only [small, low.not_ge, fits, fits.not_ge, if_true, if_false, false_or,
        Except.ok.injEq, loop_eq_iff wide.le low]
    · have large := mt (quotient_lt_iff pos).1 low
      simp only [small, not_lt.1 low, large, not_lt.1 large, if_true, if_false, true_or, or_true]

/-- Divisors with their top bit set: a quotient that does not fit, and a division in which no bit is
dropped. -/
theorem mulDivU128_exact_above_half :
    mulDivU128 (2 ^ 128 - 1) (2 ^ 128 - 1) (2 ^ 127 + 1) = .error (.err .overflow) ∧
      mulDivU128 (3 * 2 ^ 63) (2 ^ 64) (3 * 2 ^ 126) = .ok 2 :=
  ⟨((mulDivU128_exact_iff (by decide) (by decide)).2 (.inr (.inl (by decide +kernel)))).trans
      (by decide +kernel),
    ((mulDivU128_exact_iff (by decide) (by decide)).2 (.inr (.inr (by decide +kernel)))).trans
      (by decide +kernel)⟩

/-- A divisor with its top bit set: the doubled remainder loses a bit. -/
theorem mulDivU128_drops_bit :
    ∃ r, mulDivU128 (2 ^ 128 - 1) (2 ^ 128 - 1) (2 ^ 128 - 1) = .ok r ∧ r ≠ 2 ^ 128 - 1 := by
  decide +kernel

theorem q64_pos : 0 < q64 := by decide

theorem q64_le_half : q64 ≤ 2 ^ 127 := by decide

end ConcentratedAmm
