import Perigee.HybridAmmLob.OrderBook

/-!
# Limit prices

A maker is paid what a fill is worth at the limit price, rounded down, and for an ask a maker fee on
top.  So a fill respects the limit price exactly when nothing is rounded off, or when the fee of an
ask is at least one unit, which always outweighs what was rounded off.
-/

namespace HybridAmmLob

open Soroban Rounding

variable {Address : Type}

/-- The maker of a filled order receives its limit price or better. -/
def LimitRespected (buyA : Bool) (f : Fill Address) : Prop :=
  match buyA with
  | true => f.2.filled * f.1.price ≤ f.2.cost * priceScale
  | false => f.2.out * priceScale ≤ f.2.cost * f.1.price

instance (buyA : Bool) (f : Fill Address) : Decidable (LimitRespected buyA f) :=
  match buyA with
  | true => inferInstanceAs (Decidable (_ ≤ _))
  | false => inferInstanceAs (Decidable (_ ≤ _))

/-- Taking the output `a.2` from the order `a.1` rounds nothing off at its maker's expense. -/
def ExactTake (buyA : Bool) (makerFeeBps : ℤ) (a : Order Address × ℤ) : Prop :=
  match buyA with
  | true => priceScale ∣ a.2 * a.1.price ∨
      10000 ≤ (a.2 * a.1.price).tdiv priceScale * makerFeeBps
  | false => a.1.price ∣ a.2 * priceScale

instance (buyA : Bool) (makerFeeBps : ℤ) (a : Order Address × ℤ) :
    Decidable (ExactTake buyA makerFeeBps a) :=
  match buyA with
  | true => inferInstanceAs (Decidable (_ ∨ _))
  | false => inferInstanceAs (Decidable (_ ∣ _))

/-- The price of a fill rounded down, and a fee on it rounded down, cover the price exactly when
nothing is rounded off the price or the fee is at least one. -/
theorem le_rounded_add_fee_iff {n fee : ℤ} (nonneg : 0 ≤ n) (fee_nonneg : 0 ≤ fee) :
    n ≤ (n.tdiv priceScale + (n.tdiv priceScale * fee).tdiv 10000) * priceScale ↔
      priceScale ∣ n ∨ 10000 ≤ n.tdiv priceScale * fee := by
  have base := tdiv_nonneg nonneg priceScale_pos
  have upper := lt_tdiv_add_one_mul nonneg priceScale_pos
  have exact_iff := le_tdiv_mul_iff_dvd nonneg priceScale_pos
  have product : 0 ≤ n.tdiv priceScale * fee := mul_nonneg base fee_nonneg
  have feeNonneg := tdiv_nonneg product (show (0 : ℤ) < 10000 by decide)
  have feeLower := tdiv_mul_le product (show (0 : ℤ) < 10000 by decide)
  have feeUpper := lt_tdiv_add_one_mul product (show (0 : ℤ) < 10000 by decide)
  rw [← exact_iff]
  have scale := priceScale_pos
  generalize (n.tdiv priceScale * fee).tdiv 10000 = charge at *
  constructor
  · intro covered
    by_cases free : charge = 0
    · left
      rw [free] at covered
      linarith
    · right
      omega
  · rintro (_ | _)
    · have : 0 ≤ charge * priceScale := mul_nonneg feeNonneg scale.le
      linarith
    · have one : 1 ≤ charge := by omega
      have : 1 * priceScale ≤ charge * priceScale := mul_le_mul_of_nonneg_right one scale.le
      linarith

variable [DecidableEq Address] {amm : Address} {env : Env amm} {w w' : World Address}

/-- Every order a swap touches trades at its limit price or better exactly when no fill of the
allocation rounds anything off at a maker's expense. -/
theorem limits_respected_iff_exactTake {pool : PoolState Address} {taker : Address} {buyA : Bool}
    {out inMax : ℤ} {report : SwapReport Address}
    (reach : Reachable (Initial amm) (Step amm) w) (hpool : w.pool = some pool)
    (h : swap env taker buyA out inMax w = .ok (report, w')) :
    (∀ f ∈ report.fills, LimitRespected buyA f) ↔
      ∀ a ∈ allocation (if buyA then fun o => o.amount else bidWorth) out (book buyA w),
        ExactTake buyA pool.makerFeeBps a := by
  have listed := listed_of_reachable reach
  have valid := listed.valid_book buyA
  obtain ⟨p, hp, -, -, fee, -⟩ := listed.pool
  obtain rfl := Option.mem_unique hpool hp
  obtain ⟨_, -, fills, -⟩ := swap_ok hpool h
  have fillable : (if buyA then fun o => o.amount else bidWorth) =
      (side buyA pool.makerFeeBps : Side Address).fillable := by
    cases buyA <;> rfl
  rw [fills, swapFills, Side.fills, List.forall_mem_map, fillable]
  refine forall₂_congr fun a ha => ?_
  obtain ⟨mem, nonneg, -⟩ := allocation_bounds
    (fun o ho => side_fillable_nonneg (valid o ho) buyA pool.makerFeeBps) ha
  have positive := (valid a.1 mem).price_pos
  cases buyA with
  | true => exact le_rounded_add_fee_iff (mul_nonneg nonneg positive.le) fee
  | false => exact le_tdiv_mul_iff_dvd (mul_nonneg nonneg priceScale_pos.le) positive

/-- Selling for 3 of token 9 takes the better bid whole, at its limit price. -/
theorem threeOrders_limit :
    ∃ (w w' : World ℕ) (report : SwapReport ℕ), threeOrders = .ok w ∧
      swap everyoneSigns 1 false 3 100 w = .ok (report, w') ∧
      ∀ f ∈ report.fills, LimitRespected false f := by
  obtain ⟨w, hw, r, hr, takes⟩ : ∃ w, threeOrders = .ok w ∧
      ∃ r, swap everyoneSigns 1 false 3 100 w = .ok r ∧
        ∀ pool ∈ w.pool, ∀ a ∈ allocation bidWorth 3 w.bids,
          ExactTake false pool.makerFeeBps a := by
    decide
  have reach := threeOrders_reachable hw
  obtain ⟨pool, hpool, -⟩ := (listed_of_reachable reach).pool
  exact ⟨w, r.2, r.1, hw, hr, (limits_respected_iff_exactTake reach hpool hr).2 (takes pool hpool)⟩

/-- Selling for 1 of token 9 takes it from a bid at 3, whose maker receives nothing. -/
theorem bid_filled_for_nothing :
    ∃ (w w' : World ℕ) (report : SwapReport ℕ), Reachable (Initial 0) (Step 0) w ∧
      swap everyoneSigns 1 false 1 0 w = .ok (report, w') ∧
      ¬ ∀ f ∈ report.fills, LimitRespected false f := by
  obtain ⟨w, hw, r, hr, fell⟩ : ∃ w, threeOrders = .ok w ∧
      ∃ r, swap everyoneSigns 1 false 1 0 w = .ok r ∧
        ¬ ∀ f ∈ r.1.fills, LimitRespected false f := by
    decide
  exact ⟨w, r.2, r.1, threeOrders_reachable hw, hr, fell⟩

end HybridAmmLob
