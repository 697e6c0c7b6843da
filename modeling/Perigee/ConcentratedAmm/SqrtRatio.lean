import Perigee.ConcentratedAmm.Math

/-!
# The price ratios of the ticks

`getSqrtRatioAtTick` raises the ratio of one tick to the power of the tick by squaring, rounding
down after every product.  Each product loses at most one part in `2 ^ 64`, so the ratio at `t` is
within a factor `(1 - 2 ^ (-64)) ^ t` of the exact power.  That is far less than the ratio of two
neighbouring ticks, so the ratios are strictly increasing.
-/

namespace ConcentratedAmm

open Soroban

variable {k a b t ratio n : ℕ} {tick s : ℤ}

/-- The squares of the loop: the ratio of `2 ^ k` ticks, rounded down. -/
def squares : ℕ → ℕ
  | 0 => tickBase
  | k + 1 => squares k * squares k / q64

theorem squares_last : squares 19 < 2 ^ 102 := by decide

theorem squares_overflow : 2 ^ 128 ≤ squares 19 * squares 19 / q64 := by decide

theorem q64_le_squares (k : ℕ) : q64 ≤ squares k := by
  induction k with
  | zero => decide
  | succ k ih =>
    rw [squares, Nat.le_div_iff_mul_le q64_pos]
    exact Nat.mul_le_mul ih ih

theorem squares_le_succ (k : ℕ) : squares k ≤ squares (k + 1) := by
  rw [squares, Nat.le_div_iff_mul_le q64_pos]
  exact Nat.mul_le_mul_left _ (q64_le_squares k)

theorem squares_le_last (h : k ≤ 19) : squares k ≤ squares 19 :=
  monotone_nat_of_le_succ squares_le_succ h

/-! ## Rounding of one product -/

/-- What rounding a product down can lose: one part in `2 ^ 64`. -/
def loss : ℚ := 1 - 1 / q64

theorem loss_nonneg : 0 ≤ loss := by
  unfold loss q64
  norm_num

theorem product_bounds (ha : q64 ≤ a) (hb : q64 ≤ b) :
    ((a * b / q64 : ℕ) : ℚ) ≤ a * (b / q64) ∧ a * (b / q64) * loss ≤ ((a * b / q64 : ℕ) : ℚ) := by
  have pos : (0 : ℚ) < q64 := by
    exact_mod_cast q64_pos
  have lower : ((a * b / q64 : ℕ) : ℚ) * q64 ≤ a * b := by
    exact_mod_cast Nat.div_mul_le_self (a * b) q64
  have upper : (a * b : ℚ) ≤ (((a * b / q64 : ℕ) : ℚ) + 1) * q64 := by
    exact_mod_cast (Nat.lt_div_mul_add (a := a * b) q64_pos |>.le.trans_eq (by ring))
  have large : (q64 : ℚ) * q64 ≤ a * b := by
    exact_mod_cast Nat.mul_le_mul ha hb
  have exact_eq : (a : ℚ) * (b / q64) = a * b / q64 := by ring
  rw [exact_eq]
  constructor
  · rwa [le_div_iff₀ pos]
  · have one : 1 ≤ (a * b : ℚ) / q64 * (1 / q64) := by
      rw [div_mul_div_comm, mul_one, le_div_iff₀ (mul_pos pos pos), one_mul]
      exact large
    have quotient : (a * b : ℚ) / q64 ≤ ((a * b / q64 : ℕ) : ℚ) + 1 := by
      rwa [div_le_iff₀ pos]
    unfold loss
    linarith

/-! ## The loop -/

theorem sqrtRatioLoop_zero (n ratio base : ℕ) : sqrtRatioLoop n ratio base 0 = .ok ratio := by
  cases n <;> rfl

theorem squares_square (hk : k < 19) :
    mulDivU128 (squares k) (squares k) q64 = .ok (squares (k + 1)) := by
  refine (mulDivU128_ok_iff q64_le_half).2 ⟨q64_pos, ?_, rfl⟩
  exact (squares_le_last hk).trans_lt (squares_last.trans (by norm_num))

theorem multiplyIfOdd_spec (hk : k < 19) (lower : q64 ≤ ratio) (upper : ratio ≤ squares k) :
    ∃ ratio', multiplyIfOdd t ratio (squares k) = .ok ratio' ∧ q64 ≤ ratio' ∧
      ratio' ≤ squares (k + 1) ∧ (ratio' : ℚ) ≤ ratio * (squares k / q64) ^ (t % 2) ∧
      ratio * (squares k / q64) ^ (t % 2) * loss ^ (t % 2) ≤ (ratio' : ℚ) := by
  have large := q64_le_squares k
  unfold multiplyIfOdd
  rcases Nat.mod_two_eq_zero_or_one t with even | odd
  · rw [even]
    exact ⟨ratio, rfl, lower, upper.trans (squares_le_succ k), by simp, by simp⟩
  · rw [odd]
    have grows : ratio * squares k / q64 ≤ squares (k + 1) :=
      Nat.div_le_div_right (Nat.mul_le_mul_right _ upper)
    have fits : ratio * squares k / q64 < 2 ^ 128 :=
      (grows.trans (squares_le_last hk)).trans_lt (squares_last.trans (by norm_num))
    refine ⟨ratio * squares k / q64,
      (mulDivU128_ok_iff q64_le_half).2 ⟨q64_pos, fits, rfl⟩, ?_, grows, ?_, ?_⟩
    · rw [Nat.le_div_iff_mul_le q64_pos]
      exact Nat.mul_le_mul lower large
    · rw [pow_one]
      exact (product_bounds lower large).1
    · rw [pow_one, pow_one]
      exact (product_bounds lower large).2

/-- With `j` bits of the exponent left the loop returns, within the loss of its products. -/
theorem sqrtRatioLoop_spec (j : ℕ) (bits : j + k = 19) (fuel : j ≤ n) (small : t < 2 ^ j)
    (lower : q64 ≤ ratio) (upper : ratio ≤ squares k) :
    ∃ r, sqrtRatioLoop n ratio (squares k) t = .ok r ∧ q64 ≤ r ∧ r ≤ squares 19 ∧
      (r : ℚ) ≤ ratio * (squares k / q64) ^ t ∧
      ratio * (squares k / q64) ^ t * loss ^ t ≤ (r : ℚ) := by
  induction j generalizing k n ratio t with
  | zero =>
    obtain rfl : t = 0 := by omega
    exact ⟨ratio, sqrtRatioLoop_zero _ _ _, lower, upper.trans (squares_le_last (by omega)),
      by simp, by simp⟩
  | succ j ih =>
    rcases Nat.eq_zero_or_pos t with rfl | pos
    · exact ⟨ratio, sqrtRatioLoop_zero _ _ _, lower, upper.trans (squares_le_last (by omega)),
        by simp, by simp⟩
    obtain ⟨n, rfl⟩ : ∃ m, n = m + 1 := ⟨n - 1, by omega⟩
    have hk : k < 19 := by omega
    have large := q64_le_squares k
    obtain ⟨ratio', odd, lower', upper', _, _⟩ := multiplyIfOdd_spec hk lower upper
    obtain ⟨r, returned, rLower, rUpper, rLe, rGe⟩ :=
      ih (k := k + 1) (n := n) (t := t / 2) (by omega) (by omega) (by omega) lower' upper'
    have pos64 : (0 : ℚ) < q64 := by
      exact_mod_cast q64_pos
    have square := product_bounds large large
    have squareLe : (squares (k + 1) : ℚ) / q64 ≤ (squares k / q64) ^ 2 := by
      rw [div_le_iff₀ pos64]
      calc (squares (k + 1) : ℚ) ≤ squares k * (squares k / q64) := square.1
        _ = (squares k / q64) ^ 2 * q64 := by
          field_simp
    have squareGe : (squares k / q64 : ℚ) ^ 2 * loss ≤ squares (k + 1) / q64 := by
      rw [le_div_iff₀ pos64]
      calc (squares k / q64 : ℚ) ^ 2 * loss * q64 = squares k * (squares k / q64) * loss := by
            field_simp
        _ ≤ squares (k + 1) := square.2
    have split : t % 2 + 2 * (t / 2) = t := Nat.mod_add_div t 2
    refine ⟨r, ?_, rLower, rUpper, ?_, ?_⟩
    · rw [sqrtRatioLoop, if_pos pos]
      exact bind_ok_iff.2 ⟨ratio', odd, bind_ok_iff.2 ⟨_, squares_square hk, returned⟩⟩
    · calc (r : ℚ) ≤ ratio' * (squares (k + 1) / q64) ^ (t / 2) := rLe
        _ ≤ ratio * (squares k / q64) ^ (t % 2) * ((squares k / q64) ^ 2) ^ (t / 2) := by
          gcongr
        _ = ratio * (squares k / q64) ^ t := by
          rw [mul_assoc, ← pow_mul, ← pow_add, split]
    · have nonneg := loss_nonneg
      calc ratio * (squares k / q64 : ℚ) ^ t * loss ^ t
          = ratio * (squares k / q64) ^ (t % 2) * loss ^ (t % 2) *
              ((squares k / q64) ^ 2 * loss) ^ (t / 2) * loss ^ (t / 2) := by
            nth_rewrite 1 2 [← split]
            ring
        _ ≤ ratio' * (squares (k + 1) / q64) ^ (t / 2) * loss ^ (t / 2) := by
            gcongr
        _ ≤ r := rGe

/-- With more bits than that left, a square overflows. -/
theorem sqrtRatioLoop_overflow (j : ℕ) (bits : j + k = 19) (fuel : j < n) (large : 2 ^ j ≤ t)
    (r : ℕ) : sqrtRatioLoop n ratio (squares k) t ≠ .ok r := by
  induction j generalizing k n ratio t with
  | zero =>
    obtain rfl : k = 19 := by omega
    obtain ⟨n, rfl⟩ : ∃ m, n = m + 1 := ⟨n - 1, by omega⟩
    rw [sqrtRatioLoop, if_pos (by omega)]
    intro h
    obtain ⟨_, -, h⟩ := bind_ok_iff.1 h
    obtain ⟨_, square, -⟩ := bind_ok_iff.1 h
    have := ((mulDivU128_ok_iff q64_le_half).1 square).2.1
    exact absurd squares_overflow (by omega)
  | succ j ih =>
    obtain ⟨n, rfl⟩ : ∃ m, n = m + 1 := ⟨n - 1, by omega⟩
    have pos : 0 < t := lt_of_lt_of_le (by positivity) large
    rw [sqrtRatioLoop, if_pos pos]
    intro h
    obtain ⟨_, -, h⟩ := bind_ok_iff.1 h
    obtain ⟨_, square, h⟩ := bind_ok_iff.1 h
    rw [squares_square (by omega)] at square
    obtain rfl := Except.ok.inj square
    exact ih (by omega) (by omega) (by omega) h

/-! ## Ratios above one -/

def upRatio (t : ℕ) : ℕ :=
  match sqrtRatioLoop 32 q64 tickBase t with
  | .ok r => r
  | .error _ => 0

theorem upRatio_spec (small : t < 2 ^ 19) :
    sqrtRatioLoop 32 q64 tickBase t = .ok (upRatio t) ∧ q64 ≤ upRatio t ∧ upRatio t < 2 ^ 102 ∧
      (upRatio t : ℚ) ≤ q64 * (tickBase / q64) ^ t ∧
      q64 * (tickBase / q64 : ℚ) ^ t * loss ^ t ≤ upRatio t := by
  obtain ⟨r, returned, lower, upper, le, ge⟩ :=
    sqrtRatioLoop_spec 19 (k := 0) (n := 32) rfl (by decide) small le_rfl (q64_le_squares 0)
  have value : upRatio t = r := by
    unfold upRatio
    change sqrtRatioLoop 32 q64 tickBase t = .ok r at returned
    rw [returned]
  rw [value]
  exact ⟨returned, lower, upper.trans_lt squares_last, le, ge⟩

/-- The rounding of fewer than `2 ^ 19` products is far below the ratio of one tick. -/
theorem tickBase_mul_loss (small : t ≤ 2 ^ 19) :
    (2 ^ 15 + 1 : ℚ) / 2 ^ 15 ≤ tickBase / q64 * loss ^ t := by
  have bernoulli := one_add_mul_le_pow (a := (-(1 / q64) : ℚ)) (by unfold q64; norm_num) t
  have count : (t : ℚ) ≤ 2 ^ 19 := by
    exact_mod_cast small
  have lossPow : 1 - (2 ^ 19 : ℚ) * (1 / q64) ≤ loss ^ t := by
    have eq : loss = 1 + -(1 / q64 : ℚ) := by
      unfold loss
      ring
    have unit : (0 : ℚ) ≤ 1 / q64 := by positivity
    rw [eq]
    nlinarith
  have base_nonneg : (0 : ℚ) ≤ tickBase / q64 := by positivity
  calc (2 ^ 15 + 1 : ℚ) / 2 ^ 15 ≤ tickBase / q64 * (1 - 2 ^ 19 * (1 / q64)) := by
        unfold tickBase q64
        norm_num
    _ ≤ _ := mul_le_mul_of_nonneg_left lossPow base_nonneg

theorem upRatio_succ (small : t + 1 < 2 ^ 19) :
    (2 ^ 15 + 1) * upRatio t ≤ 2 ^ 15 * upRatio (t + 1) := by
  obtain ⟨-, -, -, _, -⟩ := upRatio_spec (t := t) (by omega)
  obtain ⟨-, -, -, -, ge⟩ := upRatio_spec small
  have gap := tickBase_mul_loss small.le
  have scaled : (upRatio t : ℚ) * ((2 ^ 15 + 1) / 2 ^ 15) ≤ upRatio (t + 1) :=
    calc (upRatio t : ℚ) * ((2 ^ 15 + 1) / 2 ^ 15)
        ≤ q64 * (tickBase / q64) ^ t * ((2 ^ 15 + 1) / 2 ^ 15) := by gcongr
      _ ≤ q64 * (tickBase / q64) ^ t * (tickBase / q64 * loss ^ (t + 1)) := by gcongr
      _ = q64 * (tickBase / q64 : ℚ) ^ (t + 1) * loss ^ (t + 1) := by ring
      _ ≤ upRatio (t + 1) := ge
  have : ((2 ^ 15 + 1) * upRatio t : ℚ) ≤ 2 ^ 15 * upRatio (t + 1) := by
    linarith
  exact_mod_cast this

/-! ## Ratios at all ticks -/

def ValidTick (tick : ℤ) : Prop := |tick| < 2 ^ 19

instance (tick : ℤ) : Decidable (ValidTick tick) := inferInstanceAs (Decidable (_ < _))

theorem validTick_iff : ValidTick tick ↔ -2 ^ 19 < tick ∧ tick < 2 ^ 19 := abs_lt

def sqrtRatio (tick : ℤ) : ℕ :=
  if 0 ≤ tick then upRatio tick.toNat else q64 * q64 / upRatio (-tick).toNat

theorem reciprocal_ok (lower : q64 ≤ ratio) (upper : ratio < 2 ^ 102) :
    mulDivU128 q64 q64 ratio = .ok (q64 * q64 / ratio) := by
  refine (mulDivU128_ok_iff (upper.le.trans (by norm_num))).2
    ⟨q64_pos.trans_le lower, ?_, rfl⟩
  calc q64 * q64 / ratio ≤ q64 * q64 / q64 := Nat.div_le_div_left lower q64_pos
    _ < 2 ^ 128 := by decide

theorem getSqrtRatioAtTick_of_valid (valid : ValidTick tick) :
    getSqrtRatioAtTick tick = .ok (sqrtRatio tick) := by
  have nonneg := abs_nonneg tick
  have small : |tick|.toNat < 2 ^ 19 := by
    unfold ValidTick at valid
    omega
  obtain ⟨returned, lower, upper, -⟩ := upRatio_spec small
  refine bind_ok_iff.2 ⟨|tick|, i32_ok_iff.2 ⟨?_, rfl⟩, bind_ok_iff.2 ⟨_, returned, ?_⟩⟩
  · exact ⟨by omega, by omega⟩
  · unfold sqrtRatio
    by_cases negative : tick < 0
    · rw [abs_of_neg negative] at lower upper ⊢
      rw [if_pos negative, if_neg (by omega)]
      exact reciprocal_ok lower upper
    · rw [abs_of_nonneg (by omega), if_neg negative, if_pos (by omega)]
      rfl

theorem getSqrtRatioAtTick_ok_iff {r : ℕ} :
    getSqrtRatioAtTick tick = .ok r ↔ ValidTick tick ∧ sqrtRatio tick = r := by
  constructor
  · intro h
    have valid : ValidTick tick := by
      by_contra invalid
      obtain ⟨_, range, h⟩ := bind_ok_iff.1 h
      obtain ⟨_, rfl⟩ := i32_ok_iff.1 range
      obtain ⟨ratio, loop, -⟩ := bind_ok_iff.1 h
      refine sqrtRatioLoop_overflow 19 (k := 0) (n := 32) rfl (by decide) ?_ ratio loop
      unfold ValidTick at invalid
      omega
    rw [getSqrtRatioAtTick_of_valid valid] at h
    exact ⟨valid, Except.ok.inj h⟩
  · rintro ⟨valid, rfl⟩
    exact getSqrtRatioAtTick_of_valid valid

theorem sqrtRatio_lt (valid : ValidTick tick) : sqrtRatio tick < 2 ^ 102 := by
  obtain ⟨_, _⟩ := validTick_iff.1 valid
  unfold sqrtRatio
  split_ifs with nonneg
  · exact (upRatio_spec (by omega)).2.2.1
  · obtain ⟨-, lower, -⟩ := upRatio_spec (t := (-tick).toNat) (by omega)
    calc q64 * q64 / upRatio (-tick).toNat ≤ q64 * q64 / q64 := Nat.div_le_div_left lower q64_pos
      _ < 2 ^ 102 := by decide

theorem sqrtRatio_pos (valid : ValidTick tick) : 0 < sqrtRatio tick := by
  obtain ⟨_, _⟩ := validTick_iff.1 valid
  unfold sqrtRatio
  split_ifs with nonneg
  · exact q64_pos.trans_le (upRatio_spec (by omega)).2.1
  · obtain ⟨-, lower, upper, -⟩ := upRatio_spec (t := (-tick).toNat) (by omega)
    refine Nat.div_pos (upper.le.trans ?_) (q64_pos.trans_le lower)
    decide

theorem reciprocal_lt (lower : q64 ≤ a) (upper : b < 2 ^ 102)
    (gap : (2 ^ 15 + 1) * a ≤ 2 ^ 15 * b) :
    q64 * q64 / b < q64 * q64 / a := by
  have aPos : 0 < a := q64_pos.trans_le lower
  rw [← Nat.add_one_le_iff, Nat.le_div_iff_mul_le aPos]
  have part := Nat.div_mul_le_self (q64 * q64) b
  generalize q64 * q64 / b = m at part ⊢
  have unit : 2 ^ 15 * b ≤ q64 * q64 := by
    have : q64 * q64 = 2 ^ 128 := by decide
    omega
  refine le_of_mul_le_mul_right (a := 2 ^ 15 * b) ?_ (by omega)
  calc (m + 1) * a * (2 ^ 15 * b) = 2 ^ 15 * a * (m * b) + a * (2 ^ 15 * b) := by ring
    _ ≤ 2 ^ 15 * a * (q64 * q64) + a * (q64 * q64) := by gcongr
    _ = (2 ^ 15 + 1) * a * (q64 * q64) := by ring
    _ ≤ 2 ^ 15 * b * (q64 * q64) := by gcongr
    _ = q64 * q64 * (2 ^ 15 * b) := by ring

theorem sqrtRatio_lt_succ (valid : ValidTick tick) (next : ValidTick (tick + 1)) :
    sqrtRatio tick < sqrtRatio (tick + 1) := by
  obtain ⟨_, _⟩ := validTick_iff.1 valid
  obtain ⟨_, _⟩ := validTick_iff.1 next
  unfold sqrtRatio
  rcases lt_trichotomy tick (-1) with _ | edge | _
  · rw [if_neg (by omega), if_neg (by omega)]
    have eq : (-tick).toNat = (-(tick + 1)).toNat + 1 := by omega
    rw [eq]
    have gap := upRatio_succ (t := (-(tick + 1)).toNat) (by omega)
    obtain ⟨-, lower, -⟩ := upRatio_spec (t := (-(tick + 1)).toNat) (by omega)
    obtain ⟨-, -, upper, -⟩ := upRatio_spec (t := (-(tick + 1)).toNat + 1) (by omega)
    exact reciprocal_lt lower upper gap
  · subst edge
    decide
  · rw [if_pos (by omega), if_pos (by omega)]
    have eq : (tick + 1).toNat = tick.toNat + 1 := by omega
    rw [eq]
    have gap := upRatio_succ (t := tick.toNat) (by omega)
    obtain ⟨-, lower, -⟩ := upRatio_spec (t := tick.toNat) (by omega)
    have := q64_pos
    omega

theorem sqrtRatio_strictMono {t : ℤ} (hs : ValidTick s) (ht : ValidTick t) (lt : s < t) :
    sqrtRatio s < sqrtRatio t := by
  obtain ⟨_, -⟩ := validTick_iff.1 hs
  obtain ⟨-, high⟩ := validTick_iff.1 ht
  obtain ⟨n, rfl⟩ : ∃ n : ℕ, t = s + 1 + n := ⟨(t - s - 1).toNat, by omega⟩
  clear ht lt
  induction n with
  | zero =>
    rw [Nat.cast_zero, add_zero] at high ⊢
    exact sqrtRatio_lt_succ hs (validTick_iff.2 ⟨by omega, high⟩)
  | succ n ih =>
    push_cast at high ⊢
    have previous := ih (by omega)
    rw [← add_assoc]
    exact previous.trans (sqrtRatio_lt_succ (validTick_iff.2 ⟨by omega, by omega⟩)
      (validTick_iff.2 ⟨by omega, by omega⟩))

theorem sqrtRatio_mono {t : ℤ} (hs : ValidTick s) (ht : ValidTick t) (le : s ≤ t) :
    sqrtRatio s ≤ sqrtRatio t := by
  rcases le.lt_or_eq with lt | rfl
  · exact (sqrtRatio_strictMono hs ht lt).le
  · exact le_rfl

end ConcentratedAmm
