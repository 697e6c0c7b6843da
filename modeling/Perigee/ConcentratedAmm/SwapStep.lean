import Perigee.ConcentratedAmm.TickPrice

/-!
# What one step of a swap pays

A step pays at most what the exact curve gives when the price rises.  When it falls, three divisions
round: the denominator and the output in favour of the pool, the next price in favour of the trader
and amplified by the liquidity.  Their remainders decide whether the step overpays.
-/

namespace ConcentratedAmm

open Soroban LongDivision

section Step

variable {price next liquidity amountIn out p q : ℕ}

theorem getAmount1Delta_comm (p q liquidity : ℕ) :
    getAmount1Delta p q liquidity = getAmount1Delta q p liquidity := by
  unfold getAmount1Delta
  rcases lt_trichotomy p q with lt | rfl | lt
  · simp only [lt, lt.not_gt, if_true, if_false]
  · rfl
  · simp only [lt, lt.not_gt, if_true, if_false]

/-- The denominator of the next price when token 0 is sold. -/
def saleDivisor (price liquidity amountIn : ℕ) : ℕ := liquidity + amountIn * price / q64

/-- The division for the next price drops no bit. -/
def SaleDivides (price liquidity amountIn : ℕ) : Prop :=
  price * liquidity < 2 ^ 128 ∨
    Fits 128 (saleDivisor price liquidity amountIn) (price * liquidity) 128

/-- What the next price is rounded down by, times the liquidity, is at most what the output and the
denominator are rounded down by. -/
def Absorbs (price liquidity amountIn next : ℕ) : Prop :=
  liquidity * q64 * (price * liquidity - next * saleDivisor price liquidity amountIn) ≤
    liquidity * (price - next) % q64 * (liquidity * q64 + amountIn * price) +
      liquidity * next * (amountIn * price % q64)

instance decidableAbsorbs : Decidable (Absorbs price liquidity amountIn next) := Nat.decLe _ _

theorem next_le (active : 0 < liquidity)
    (moved : getNextSqrtPriceFromInput price liquidity amountIn true = .ok next) :
    next ≤ price ∧ next * saleDivisor price liquidity amountIn ≤ price * liquidity ∧
      (SaleDivides price liquidity amountIn →
        next = price * liquidity / saleDivisor price liquidity amountIn) := by
  unfold getNextSqrtPriceFromInput at moved
  by_cases zero : amountIn = 0
  · rw [if_pos zero] at moved
    obtain rfl := pure_ok_iff.1 moved
    simp [saleDivisor, zero, active]
  · rw [if_neg zero, if_pos rfl] at moved
    simp only [ok_iff] at moved
    obtain ⟨delta, product, _, ⟨fits, rfl⟩, moved⟩ := moved
    obtain ⟨-, -, rfl⟩ := (mulDivU128_ok_iff q64_le_half).1 product
    change mulDivU128 price liquidity (saleDivisor price liquidity amountIn) = .ok next at moved
    obtain ⟨positive, most⟩ := mulDivU128_le moved
    have bound := (Nat.le_div_iff_mul_le positive).1 most
    refine ⟨?_, bound, fun exact => ?_⟩
    · apply Nat.le_of_mul_le_mul_right _ active
      exact (Nat.mul_le_mul_left _ (Nat.le_add_right _ _)).trans bound
    · exact mulDivU128_quotient fits.le exact moved

/-- What a sale of token 0 pays against the exact curve, by the remainders of its divisions. -/
theorem sale_remainders (le : next ≤ price)
    (bound : next * saleDivisor price liquidity amountIn ≤ price * liquidity) :
    liquidity * (price - next) / q64 * q64 * (liquidity * q64 + amountIn * price) +
        (liquidity * (price - next) % q64 * (liquidity * q64 + amountIn * price) +
          liquidity * next * (amountIn * price % q64)) =
      liquidity * amountIn * price ^ 2 +
        liquidity * q64 * (price * liquidity - next * saleDivisor price liquidity amountIn) := by
  obtain ⟨rest, split⟩ := Nat.exists_eq_add_of_le bound
  obtain ⟨fall, rfl⟩ := Nat.exists_eq_add_of_le le
  have out := Nat.div_add_mod (liquidity * fall) q64
  have sold := Nat.div_add_mod (amountIn * (next + fall)) q64
  rw [split, Nat.add_sub_cancel_left, Nat.add_sub_cancel_left]
  unfold saleDivisor at split
  generalize liquidity * fall / q64 = o, liquidity * fall % q64 = κ at *
  generalize amountIn * (next + fall) / q64 = k, amountIn * (next + fall) % q64 = s at *
  have moved : fall * liquidity = next * k + rest := by linarith
  calc _ = (q64 * o + κ) * (liquidity * q64 + amountIn * (next + fall)) + liquidity * next * s := by
        ring
    _ = liquidity * (fall * liquidity * q64 + fall * (amountIn * (next + fall)) + next * s) := by
        rw [out]; ring
    _ = liquidity * ((q64 * k + s) * next + fall * (amountIn * (next + fall)) + q64 * rest) := by
        rw [moved]; ring
    _ = _ := by rw [sold]; ring

theorem sale_le_iff (active : 0 < liquidity)
    (moved : getNextSqrtPriceFromInput price liquidity amountIn true = .ok next)
    (paid : getAmount1Delta price next liquidity = .ok out) :
    out * q64 * (liquidity * q64 + amountIn * price) ≤ liquidity * amountIn * price ^ 2 ↔
      Absorbs price liquidity amountIn next := by
  obtain ⟨le, bound, -⟩ := next_le active moved
  rw [getAmount1Delta_comm] at paid
  obtain ⟨-, rfl⟩ := (getAmount1Delta_ok_iff le).1 paid
  have balance := sale_remainders le bound
  unfold Absorbs
  omega

/-- **A step never pays more than the exact curve** when the price rises.  When it falls, this is so
just when the remainders absorb the rounding of the next price; that price is the rounded quotient,
unless its division drops a bit. -/
theorem step_never_overpays (active : 0 < liquidity) :
    (getNextSqrtPriceFromInput price liquidity amountIn true = .ok next →
      getAmount1Delta price next liquidity = .ok out →
      (SaleDivides price liquidity amountIn →
        (out * q64 * (liquidity * q64 + amountIn * price) ≤ liquidity * amountIn * price ^ 2 ↔
          Absorbs price liquidity amountIn
            (price * liquidity / saleDivisor price liquidity amountIn))) ∧
      (out * q64 * (liquidity * q64 + amountIn * price) ≤ liquidity * amountIn * price ^ 2 ↔
        Absorbs price liquidity amountIn next)) ∧
    (getNextSqrtPriceFromInput price liquidity amountIn false = .ok next →
      getAmount0Delta price next liquidity = .ok out →
      out * price * (price * liquidity + amountIn * q64) ≤ liquidity * amountIn * q64 ^ 2) := by
  constructor
  · intro moved paid
    refine ⟨fun divides => ?_, sale_le_iff active moved paid⟩
    rw [← (next_le active moved).2.2 divides]
    exact sale_le_iff active moved paid
  · intro moved paid
    obtain ⟨le, bound⟩ := nextPrice_up moved
    obtain ⟨positive, paid, -⟩ := getAmount0Delta_ok paid le
    obtain ⟨rise, rfl⟩ := Nat.exists_eq_add_of_le le
    rw [Nat.add_sub_cancel_left] at paid
    have small : rise * liquidity ≤ amountIn * q64 :=
      (Nat.le_div_iff_mul_le active).1 (by omega)
    obtain ⟨rest, split⟩ := Nat.exists_eq_add_of_le small
    -- the exact amount grows with the price, and is at most the liquidity over the price
    have most : out * price ≤ liquidity * q64 := by
      apply Nat.le_of_mul_le_mul_right _ (Nat.add_pos_left positive rise)
      calc out * price * (price + rise) = out * (price * (price + rise)) := by ring
        _ ≤ liquidity * q64 * rise := paid
        _ ≤ liquidity * q64 * (price + rise) := by gcongr; omega
    calc out * price * (price * liquidity + amountIn * q64)
        = out * (price * (price + rise)) * liquidity + out * price * rest := by rw [split]; ring
      _ ≤ liquidity * q64 * rise * liquidity + liquidity * q64 * rest := by gcongr
      _ = liquidity * q64 * (rise * liquidity + rest) := by ring
      _ = liquidity * amountIn * q64 ^ 2 := by rw [← split]; ring

end Step

/-- A small trade, whose next prices are rounded. -/
theorem small_trade_not_overpaid :
    (∃ out, getAmount1Delta q64 (q64 * 1000 / 1007) 1000 = .ok out ∧
      out * q64 * (1000 * q64 + 7 * q64) ≤ 1000 * 7 * q64 ^ 2) ∧
    ∃ out, getAmount0Delta q64 (q64 + 7 * q64 / 1000) 1000 = .ok out ∧
      out * q64 * (q64 * 1000 + 7 * q64) ≤ 1000 * 7 * q64 ^ 2 := by
  obtain ⟨_, down, rfl⟩ : ∃ next, getNextSqrtPriceFromInput q64 1000 7 true = .ok next ∧
      next = q64 * 1000 / 1007 := by decide +kernel
  obtain ⟨_, up, rfl⟩ : ∃ next, getNextSqrtPriceFromInput q64 1000 7 false = .ok next ∧
      next = q64 + 7 * q64 / 1000 := by decide +kernel
  obtain ⟨out, paid⟩ : ∃ out, getAmount1Delta q64 (q64 * 1000 / 1007) 1000 = .ok out := by
    decide +kernel
  obtain ⟨out', paid'⟩ :
      ∃ out, getAmount0Delta q64 (q64 + 7 * q64 / 1000) 1000 = .ok out := by
    decide +kernel
  have down := ((step_never_overpays (by decide)).1 down paid).1 (.inl (by decide))
  exact ⟨⟨out, paid, down.2 (by decide +kernel)⟩,
    out', paid', (step_never_overpays (by decide)).2 up paid'⟩

/-- One unit of input moves the price by one unit, for which `2 ^ 100` of liquidity pays
`2 ^ 36`. -/
theorem rounded_price_overpays :
    ∃ next, getNextSqrtPriceFromInput q64 (2 ^ 100) 1 true = .ok next ∧
      ∃ out, getAmount1Delta q64 next (2 ^ 100) = .ok out ∧
        2 ^ 100 * 1 * q64 ^ 2 < out * q64 * (2 ^ 100 * q64 + 1 * q64) := by
  decide +kernel

end ConcentratedAmm
