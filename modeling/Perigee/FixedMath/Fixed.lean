import Perigee.ConcentratedAmm.Math

/-!
# Fixed-point numbers

`contracts/math/src/lib.rs`: a number is an `i128` that counts units of `10 ^ -18`.
-/

namespace FixedMath

open Soroban LongDivision
open ConcentratedAmm (wideMul mulDivU128_ok_iff)

inductive MathError where
  | overflow
  | divisionByZero
  deriving DecidableEq

abbrev Result := Outcome MathError ℤ

def scale : ℤ := 10 ^ 18

/-- The product and the long division are those of the concentrated AMM. -/
def mulDivU128 (a b d : ℕ) : ℕ × Bool :=
  if a * b < 2 ^ 128 then (a * b / d, false)
  else if d ≤ (wideMul a b).1 then (0, true)
  else (divide 128 (wideMul a b).2 d 128 (wideMul a b).1 0, false)

def mulDiv (a b d : ℤ) : Option ℤ :=
  if d = 0 then none
  else
    let (res, overflow) := mulDivU128 a.natAbs b.natAbs d.natAbs
    if overflow = true ∨ 2 ^ 127 - 1 < res then none
    else if (a < 0) ^^ (b < 0) ^^ (d < 0) then some (-res) else some res

def mul (x y : ℤ) : Result := okOr (mulDiv x y scale) .overflow

def div (x y : ℤ) : Result := do
  reject (y = 0) .divisionByZero
  okOr (mulDiv x scale y) .overflow

/-! ## Multiplication and division -/

theorem mulDivU128_cases (a b : ℕ) {d : ℕ} (pos : 0 < d) (half : d ≤ 2 ^ 127) :
    mulDivU128 a b d = (a * b / d, false) ∨
      (mulDivU128 a b d).2 = true ∧ 2 ^ 128 ≤ a * b / d := by
  have wide (r : ℕ) := @mulDivU128_ok_iff a b d r half
  simp only [ConcentratedAmm.mulDivU128, pos.ne', if_false, pos, true_and] at wide
  unfold mulDivU128
  split_ifs at wide ⊢
  · exact .inl rfl
  · refine .inr ⟨rfl, not_lt.1 fun lt => ?_⟩
    exact (wide (a * b / d)).2 ⟨lt, rfl⟩
  · rw [((wide _).1 rfl).2]
    exact .inl rfl

theorem tdiv_eq (a b d : ℤ) :
    (a * b).tdiv d = if (a < 0) ^^ (b < 0) ^^ (d < 0) then
      -((a.natAbs * b.natAbs / d.natAbs : ℕ) : ℤ) else (a.natAbs * b.natAbs / d.natAbs : ℕ) := by
  have signed (x : ℤ) : x = if x < 0 then -(x.natAbs : ℤ) else x.natAbs := by
    split_ifs <;> omega
  conv_lhs => rw [signed a, signed b, signed d]
  by_cases ha : a < 0 <;> by_cases hb : b < 0 <;> by_cases hd : d < 0 <;>
    simp only [ha, hb, hd, if_true, if_false, Int.neg_tdiv, Int.tdiv_neg, neg_mul, mul_neg, neg_neg,
      decide_true, decide_false, Bool.xor_self, Bool.xor_false, Bool.xor_true, Bool.not_false,
      Bool.false_eq_true, Int.natCast_ediv, Int.natCast_mul] <;>
    rw [Int.tdiv_eq_ediv_of_nonneg (by positivity)]

theorem mulDiv_eq (a b : ℤ) {d : ℤ} (nonzero : d ≠ 0) (range : IsI128 d) :
    mulDiv a b d =
      if |(a * b).tdiv d| ≤ 2 ^ 127 - 1 then some ((a * b).tdiv d) else none := by
  have size : |(a * b).tdiv d| = (a.natAbs * b.natAbs / d.natAbs : ℕ) := by
    rw [tdiv_eq]
    split_ifs
    · rw [abs_neg, Nat.abs_cast]
    · rw [Nat.abs_cast]
  have half : d.natAbs ≤ 2 ^ 127 := by
    obtain ⟨_, _⟩ := range
    omega
  rw [size, mulDiv, if_neg nonzero]
  have pos := Int.natAbs_pos.2 nonzero
  rcases mulDivU128_cases a.natAbs b.natAbs pos half with quotient | ⟨flag, large⟩
  · rw [quotient, tdiv_eq]
    generalize a.natAbs * b.natAbs / d.natAbs = q
    simp only [Bool.false_eq_true, false_or]
    by_cases fits : 2 ^ 127 - 1 < q
    · rw [if_pos fits, if_neg (by omega)]
    · have bound : (q : ℤ) ≤ 2 ^ 127 - 1 := by omega
      rw [if_neg fits, if_pos bound]
      split_ifs <;> rfl
  · simp only [flag, true_or, if_true]
    rw [if_neg (by omega)]

/-- **Exactness**: products and quotients are truncated toward zero, or rejected where they exceed
the largest `i128`. -/
theorem fixed_exact (a b d : ℤ) (nonzero : d ≠ 0) (range : IsI128 d) :
    (mulDiv a b d =
      if |(a * b).tdiv d| ≤ 2 ^ 127 - 1 then some ((a * b).tdiv d) else none) ∧
    (mul a b = if |(a * b).tdiv scale| ≤ 2 ^ 127 - 1 then .ok ((a * b).tdiv scale)
      else .error (.err .overflow)) ∧
    div a d = if |(a * scale).tdiv d| ≤ 2 ^ 127 - 1 then .ok ((a * scale).tdiv d)
      else .error (.err .overflow) := by
  refine ⟨mulDiv_eq a b nonzero range, ?_, ?_⟩
  · rw [mul, mulDiv_eq a b (by decide) (by decide)]
    split_ifs <;> rfl
  · rw [div, reject, if_neg nonzero, mulDiv_eq a scale nonzero range]
    split_ifs <;> rfl

/-- The quotient `i128::MIN` is rejected, and its negation is not an `i128`. -/
theorem fixed_exact_min :
    mulDiv (-2 ^ 127) (-2 ^ 127) (-2 ^ 127) = none ∧
      mul (-2 ^ 127) scale = .error (.err .overflow) ∧ div (-2 ^ 127) (-2 ^ 127) = .ok scale := by
  obtain ⟨quotient, -, whole⟩ :=
    fixed_exact (-2 ^ 127) (-2 ^ 127) (-2 ^ 127) (by decide) (by decide)
  obtain ⟨-, product, -⟩ := fixed_exact (-2 ^ 127) scale 1 (by decide) (by decide)
  exact ⟨quotient.trans (by decide), product.trans (by decide), whole.trans (by decide)⟩

end FixedMath
