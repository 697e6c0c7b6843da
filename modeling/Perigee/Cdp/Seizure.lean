import Perigee.Cdp.Accounting

/-!
# How much collateral a liquidation takes

A liquidation by a holder of the coin takes collateral worth the repaid debt with the incentive, and
never more.  Self-liquidation takes the whole position.
-/

namespace Cdp

open Soroban Rounding

def oracleValue (price amount : ℤ) : ℚ := amount * price / priceScale

/-- The collateral taken is worth at most the debt cleared with the incentive, and one unit more. -/
def SeizureBounded (params : RiskParams) (price : ℤ) (before after : Position) : Prop :=
  oracleValue price (before.collateralAmount - after.collateralAmount) ≤
    (before.debtAmount - after.debtAmount : ℤ) * (bps + params.liquidationIncentiveBps) / bps + 1

theorem seizureBounded_iff {params : RiskParams} {price : ℤ} {before after : Position} :
    SeizureBounded params price before after ↔
      (before.collateralAmount - after.collateralAmount) * price * bps ≤
        ((before.debtAmount - after.debtAmount) * (bps + params.liquidationIncentiveBps) + bps) *
          priceScale := by
  unfold SeizureBounded oracleValue
  rw [div_add_one (by norm_num [bps]), div_le_div_iff₀ (by norm_num [priceScale])
    (by norm_num [bps])]
  norm_cast

section Arithmetic

variable {price collateral debt ratio value : ℤ} {params : RiskParams}

/-- A position below a ratio has less collateral than that ratio of its debt, up to the rounding of
its value. -/
theorem collateral_lt_of_ratio_lt {bound : ℤ} (owes : 0 < debt) (nonneg : 0 ≤ collateral * price)
    (h : collateralRatioBps price collateral debt = .ok ratio) (low : ratio < bound) :
    collateral * price * bps < (bound * debt + bps) * priceScale := by
  rw [collateralRatioBps, if_neg (not_le.2 owes)] at h
  simp only [collateralValue, ok_iff, checkedMul_ok_iff] at h
  obtain ⟨value, ⟨_, ⟨-, rfl⟩, -, -, hvalue⟩, _, ⟨-, rfl⟩, -, -, rfl⟩ := h
  have above := lt_tdiv_add_one_mul nonneg (show (0 : ℤ) < priceScale by decide)
  rw [hvalue] at above
  have valueNonneg : 0 ≤ value := by
    unfold priceScale at above
    by_contra negative
    nlinarith
  have scaled : value * bps < bound * debt := by
    have below := lt_tdiv_add_one_mul (mul_nonneg valueNonneg (show (0 : ℤ) ≤ bps by decide)) owes
    nlinarith
  unfold bps priceScale at *
  linarith

end Arithmetic

section Contract

variable {Address : Type} [DecidableEq Address] {cdp : Address} {env : OracleEnv cdp}
  {w w' : World Address} {params : RiskParams} {borrower : Address} {price : ℤ} {p : Position}
  {w₁ : World Address}

theorem accrued_terms {p' : Position} {w₂ : World Address} {params' : RiskParams} {price' : ℤ}
    (hparams : w.riskParams = some params) (accrued : accruePosition env borrower w = .ok (p, w₁))
    (hprice : oraclePrice env w = .ok price)
    (accrued' : accruePosition env borrower w = .ok (p', w₂))
    (hparams' : w₂.riskParams = some params') (hprice' : oraclePrice env w₂ = .ok price') :
    p = p' ∧ w₁ = w₂ ∧ params = params' ∧ price = price' := by
  obtain ⟨rfl, rfl⟩ := Prod.mk.inj (Except.ok.inj (accrued.symm.trans accrued'))
  obtain ⟨-, sameParams, samePrice⟩ := accrue_frame accrued
  obtain rfl := Option.some.inj (hparams.symm.trans (sameParams.symm.trans hparams'))
  obtain rfl := Except.ok.inj (hprice.symm.trans (samePrice.symm.trans hprice'))
  exact ⟨rfl, rfl, rfl, rfl⟩

theorem riskParams_of_reachable (reach : Reachable (InitialWith cdp params) (Step cdp) w) :
    w.riskParams = some params ∧ IsI128 params.minCollateralRatioBps ∧
      ∃ excess, Books cdp excess w := by
  refine reach.invariant (P := fun w => w.riskParams = some params ∧
    IsI128 params.minCollateralRatioBps ∧ ∃ excess, Books cdp excess w) (fun _ init => ?_)
    fun _ _ _ held step => ?_
  · refine ⟨?_, ?_, 0, initial_books ⟨params, init⟩⟩
    · obtain ⟨_, _, _, _, _, _, _, _, -, -, h⟩ := init
      simp only [initializeCdp, ok_iff] at h
      obtain ⟨_, -, _, -, rfl⟩ := h
      rfl
    · obtain ⟨_, _, _, _, _, _, _, _, -, typed, -⟩ := init
      exact typed
  · obtain ⟨hparams, typed, excess, books⟩ := held
    obtain ⟨⟨_, -, -, books'⟩, same⟩ := books.step step
    exact ⟨same.trans hparams, typed, _, books'⟩

/-! ## A ratio above the incentive -/

variable {user : Address}

theorem accruePosition_idle (h : readPosition env.toEnv w user = p)
    (idle : p.debtAmount ≤ 0 ∨ env.sequence ≤ p.lastAccrualLedger) :
    accruePosition env user w = .ok ({ p with lastAccrualLedger := env.sequence },
      writePosition w user { p with lastAccrualLedger := env.sequence }) := by
  subst h
  unfold accruePosition
  rw [if_pos idle]
  rfl

theorem collateralValue_of {value : ℤ} (nonneg : 0 ≤ value * price)
    (fits : value * price * priceScale < 2 ^ 127) :
    collateralValue price (value * priceScale) = .ok (value * price) := by
  have swap : value * priceScale * price = value * price * priceScale := mul_right_comm _ _ _
  have whole : (value * price * priceScale).tdiv priceScale = value * price :=
    Int.mul_tdiv_cancel _ (by decide)
  simp only [collateralValue, ok_iff, checkedMul_ok_iff]
  refine ⟨_, ⟨?_, rfl⟩, by decide, ?_, ?_⟩
  · unfold priceScale at *
    exact ⟨by omega, by omega⟩
  · rw [swap]
    unfold priceScale at *
    exact ⟨by omega, by omega⟩
  · rw [swap, whole]

theorem collateralRatioBps_of {value : ℤ} (nonneg : 0 ≤ value * price)
    (fits : value * price * priceScale < 2 ^ 127) :
    collateralRatioBps price (value * priceScale) (4 * bps) = .ok (value * price / 4) := by
  have quotient : (value * price * bps).tdiv (4 * bps) = value * price / 4 := by
    rw [Int.mul_tdiv_mul_of_pos_left _ _ (by decide), Int.tdiv_eq_ediv_of_nonneg nonneg]
  rw [collateralRatioBps, if_neg (by decide)]
  simp only [ok_iff, checkedMul_ok_iff]
  refine ⟨_, collateralValue_of nonneg fits, _, ⟨?_, rfl⟩, by decide, ?_, quotient⟩
  · unfold priceScale bps at *
    exact ⟨by omega, by omega⟩
  · unfold priceScale at *
    exact ⟨by omega, by omega⟩

def openEnv (cdp : Address) (price : ℤ) : OracleEnv cdp where
  sequence := 0
  auth a := decide (a ≠ cdp)
  auth_this := by simp
  latestPrice _ := price

/-- Worth two units more than the incentive pays for a debt of four times `bps`. -/
def topUp (params : RiskParams) : ℤ := 4 * (bps + params.liquidationIncentiveBps) + 2

def opened (cdp user : Address) (params : RiskParams) : World Address where
  admin := some user
  collateralToken := some user
  oracle := some user
  riskParams := some params
  interestRateModel := some ⟨0, 0, 0, 1⟩
  tokens := fun _ holder => if holder = cdp then 0 else topUp params * priceScale

def locked (cdp user : Address) (params : RiskParams) : World Address :=
  let collateral := topUp params * priceScale
  { writePosition (writePosition (opened cdp user params) user ⟨0, 0, 0⟩) user
    ⟨collateral, 0, 0⟩ with
    tokens := ((opened cdp user params).tokens.add user user (-collateral)).add user cdp collateral
    totalCollateral := collateral }

def lent (cdp user : Address) (params : RiskParams) : World Address :=
  let collateral := topUp params * priceScale
  { writePosition (writeStableBalance
      (writePosition (locked cdp user params) user ⟨collateral, 0, 0⟩) user (4 * bps))
      user ⟨collateral, 4 * bps, 0⟩ with
    totalDebt := 4 * bps
    totalStableSupply := 4 * bps }

theorem lent_accrued : accruePosition (openEnv cdp 1) user (lent cdp user params) =
    .ok (⟨topUp params * priceScale, 4 * bps, 0⟩,
      writePosition (lent cdp user params) user ⟨topUp params * priceScale, 4 * bps, 0⟩) := by
  refine accruePosition_idle (p := ⟨topUp params * priceScale, 4 * bps, 0⟩) ?_ (Or.inr le_rfl)
  exact congrArg (Option.getD · _) (Store.lookup_set_self _ _ _)

section TooMuch

variable (above : bps + params.liquidationIncentiveBps < params.minCollateralRatioBps)
  (nonneg : 0 ≤ params.liquidationIncentiveBps) (cap : params.minCollateralRatioBps ≤ 10 ^ 15)
  (other : user ≠ cdp)
include above nonneg cap

omit [DecidableEq Address] in
theorem topUp_bounds : 4 ≤ topUp params ∧ topUp params ≤ 4 * 10 ^ 15 ∧
    topUp params / 4 < params.minCollateralRatioBps := by
  unfold topUp bps at *
  exact ⟨by omega, by omega, by omega⟩

theorem opened_initial : InitialWith cdp params (opened cdp user params) := by
  refine ⟨user, user, user, 0, 0, 0, 1, (opened cdp user params).tokens, fun _ => ?_, ?_, ?_⟩
  · exact (if_pos rfl).ge
  · unfold bps at above
    exact ⟨by omega, by omega⟩
  · simp only [initializeCdp, ok_iff]
    refine ⟨(), by simp, (), ?_, rfl⟩
    unfold bps at *
    omega

include other

theorem opened_deposit : exec (openEnv cdp 1) (opened cdp user params)
    (.depositCollateral user (topUp params * priceScale)) = .ok (locked cdp user params) := by
  obtain ⟨_, _, -⟩ := topUp_bounds above nonneg cap
  have fits : IsI128 (0 + topUp params * priceScale) := by
    unfold priceScale
    exact ⟨by omega, by omega⟩
  have positive' : 0 < topUp params * priceScale := by
    unfold priceScale
    omega
  have paid : ((opened cdp user params).tokens.transfer user user cdp (topUp params * priceScale) :
      Outcome Error _) = .ok (locked cdp user params).tokens :=
    Tokens.transfer_ok_iff.2 ⟨positive'.le, (if_neg other).ge, rfl⟩
  have accrued : accruePosition (openEnv cdp 1) user (opened cdp user params) =
      .ok (⟨0, 0, 0⟩, writePosition (opened cdp user params) user ⟨0, 0, 0⟩) :=
    accruePosition_idle (p := ⟨0, 0, 0⟩) rfl (Or.inl le_rfl)
  rw [exec, map_snd_ok_iff]
  refine ⟨⟨topUp params * priceScale, 0, 0⟩, ?_⟩
  simp only [depositCollateral, ok_iff, requireAuth_ok_iff, checkedAdd_ok_iff, not_le]
  exact ⟨(), decide_eq_true other, (), positive', user, rfl, _, accrued, _, paid, _,
    ⟨fits, zero_add _⟩, _, ⟨fits, zero_add _⟩, rfl⟩

theorem locked_mint : exec (openEnv cdp params.minCollateralRatioBps) (locked cdp user params)
    (.mintStable user (4 * bps)) = .ok (lent cdp user params) := by
  obtain ⟨_, bounded, -⟩ := topUp_bounds above nonneg cap
  have ratioPos : 0 < params.minCollateralRatioBps := by
    unfold bps at above
    omega
  have product : topUp params * params.minCollateralRatioBps ≤ 4 * 10 ^ 15 * 10 ^ 15 :=
    mul_le_mul bounded cap ratioPos.le (by norm_num)
  have ratio : collateralRatioBps params.minCollateralRatioBps (topUp params * priceScale)
    (4 * bps) =
      .ok (topUp params * params.minCollateralRatioBps / 4) := by
    apply collateralRatioBps_of (mul_nonneg (by omega) ratioPos.le)
    unfold priceScale
    omega
  have enough : params.minCollateralRatioBps ≤ topUp params * params.minCollateralRatioBps / 4 := by
    apply Int.le_ediv_of_mul_le (by norm_num)
    nlinarith
  have safe : ensureSafe (openEnv cdp params.minCollateralRatioBps)
      (writePosition (locked cdp user params) user ⟨topUp params * priceScale, 0, 0⟩)
      ⟨topUp params * priceScale, 0 + 4 * bps, 0⟩ = .ok () := by
    simp only [ensureSafe, oraclePrice, ok_iff, not_lt, not_le]
    exact ⟨_, ⟨user, rfl, (), ratioPos, rfl⟩, params, rfl, _, ratio, enough⟩
  have accrued : accruePosition (openEnv cdp params.minCollateralRatioBps) user
      (locked cdp user params) = .ok (⟨topUp params * priceScale, 0, 0⟩,
        writePosition (locked cdp user params) user ⟨topUp params * priceScale, 0, 0⟩) := by
    refine accruePosition_idle (p := ⟨topUp params * priceScale, 0, 0⟩) ?_ (Or.inl le_rfl)
    exact congrArg (Option.getD · _) (Store.lookup_set_self _ _ _)
  have small : IsI128 (0 + 4 * bps) := by decide
  rw [exec, map_snd_ok_iff]
  refine ⟨⟨topUp params * priceScale, 4 * bps, 0⟩, ?_⟩
  simp only [mintStable, ok_iff, requireAuth_ok_iff, checkedAdd_ok_iff]
  exact ⟨(), decide_eq_true other, (), by decide, _, accrued, _, ⟨small, rfl⟩, (), safe, _,
    ⟨small, rfl⟩, _, ⟨small, rfl⟩, _, ⟨small, rfl⟩, rfl⟩

omit other in
theorem lent_closed : ∃ r, selfLiquidate (openEnv cdp 1) user (lent cdp user params) = .ok r := by
  obtain ⟨_, _, _⟩ := topUp_bounds above nonneg cap
  have whole : 0 ≤ topUp params * 1 := by omega
  have fits : topUp params * 1 * priceScale < 2 ^ 127 := by
    unfold priceScale
    omega
  have rate : 0 < bps + params.liquidationIncentiveBps := by
    unfold bps
    omega
  -- The collateral covers the whole debt, so none of it is bad.
  have covered :
      4 * bps ≤ (topUp params * 1 * bps).tdiv (bps + params.liquidationIncentiveBps) := by
    rw [Int.tdiv_eq_ediv_of_nonneg (mul_nonneg whole (by decide))]
    apply Int.le_ediv_of_mul_le rate
    unfold topUp bps
    omega
  have coverable : (topUp params * 1 * bps).tdiv (bps + params.liquidationIncentiveBps) ≤
      topUp params * 1 * bps := by
    rw [Int.tdiv_eq_ediv_of_nonneg (mul_nonneg whole (by decide))]
    exact Int.ediv_le_self _ (mul_nonneg whole (by decide))
  have small : ∀ {x : ℤ}, 0 ≤ x → x ≤ 4 * 10 ^ 15 * priceScale → IsI128 x := by
    intro x _ upper
    unfold priceScale at upper
    exact ⟨by omega, by omega⟩
  have locked' : 0 ≤ topUp params * priceScale ∧
      topUp params * priceScale ≤ 4 * 10 ^ 15 * priceScale := by
    unfold priceScale
    exact ⟨by omega, by omega⟩
  have reserved : IsI128 (0 + topUp params * priceScale) := by
    rw [zero_add]
    exact small locked'.1 locked'.2
  have released : IsI128 (topUp params * priceScale - topUp params * priceScale) := by
    rw [sub_self]
    decide
  apply bind_succeeds lent_accrued
  apply bind_succeeds (a := params) rfl
  apply bind_succeeds (a := (1 : ℤ)) rfl
  apply bind_succeeds (collateralRatioBps_of whole fits)
  apply bind_succeeds (a := ()) (reject_ok_iff.2 (by omega))
  apply bind_succeeds (collateralValue_of whole fits)
  apply bind_succeeds (checkedMul_ok_iff.2 ⟨small (mul_nonneg whole (by decide))
    (by unfold bps priceScale; omega), rfl⟩)
  apply bind_succeeds (i128_ok_iff.2 ⟨⟨by omega, by omega⟩, rfl⟩)
  apply bind_succeeds (divI128_ok_iff.2 ⟨rate.ne', small (by unfold bps at *; omega)
    (coverable.trans (by unfold bps priceScale; omega)), rfl⟩)
  apply bind_succeeds (a := 0) (if_neg (not_lt.2 covered))
  apply bind_succeeds (i128_ok_iff.2 ⟨(by decide : IsI128 (4 * bps - 0)), rfl⟩)
  apply bind_succeeds (checkedAdd_ok_iff.2 ⟨reserved, rfl⟩)
  apply bind_succeeds (checkedAdd_ok_iff.2 ⟨(by decide : IsI128 (0 + 0)), rfl⟩)
  apply bind_succeeds (checkedSub_ok_iff.2 ⟨(by decide : IsI128 (4 * bps - (4 * bps - 0))), rfl⟩)
  apply bind_succeeds (checkedSub_ok_iff.2 ⟨released, rfl⟩)
  exact ⟨_, rfl⟩

end TooMuch

/-- A holder's liquidation is bounded, and self-liquidation is when the minimal ratio is at most
what the incentive pays for.  Otherwise, for every ratio up to 10^15, some position is closed for
more. -/
theorem seizures_bounded_iff (other : user ≠ cdp) :
    (∀ (w w' w₁ : World Address) (env : OracleEnv cdp) (borrower : Address) (p : Position)
        (price : ℤ), Reachable (InitialWith cdp params) (Step cdp) w →
      accruePosition env borrower w = .ok (p, w₁) → oraclePrice env w = .ok price →
      (∃ liquidator requested quote,
        liquidate env liquidator borrower requested w = .ok (quote, w')) ∨
      ((∃ closed, selfLiquidate env borrower w = .ok (closed, w')) ∧
        params.minCollateralRatioBps ≤ bps + params.liquidationIncentiveBps) →
      SeizureBounded params price p (readPosition env.toEnv w' borrower)) ∧
    (0 ≤ params.liquidationIncentiveBps →
      bps + params.liquidationIncentiveBps < params.minCollateralRatioBps →
      params.minCollateralRatioBps ≤ 10 ^ 15 →
      ∃ (w w' w₁ : World Address) (env : OracleEnv cdp) (borrower : Address) (p closed : Position)
        (price : ℤ), Reachable (InitialWith cdp params) (Step cdp) w ∧
        accruePosition env borrower w = .ok (p, w₁) ∧ oraclePrice env w = .ok price ∧
        selfLiquidate env borrower w = .ok (closed, w') ∧
        ¬ SeizureBounded params price p (readPosition env.toEnv w' borrower)) := by
  constructor
  · intro w w' w₁ env borrower p price reach accrued hprice liquidates
    obtain ⟨hparams, typed, _, books⟩ := riskParams_of_reachable reach
    have pos := oraclePrice_ok hprice
    rw [seizureBounded_iff]
    unfold readPosition
    rcases liquidates with ⟨liquidator, requested, quote, h⟩ | ⟨⟨closed, h⟩, config⟩
    · obtain ⟨_, _, _, _, _, _, -, accrued', hparams', hprice', terms, -, -, -, rfl⟩ :=
        liquidate_ok h
      obtain ⟨rfl, rfl, rfl, rfl⟩ := accrued_terms hparams accrued hprice accrued' hparams' hprice'
      have rate : (0 : ℤ) ≤ bps + params.liquidationIncentiveBps :=
        add_nonneg (by decide) (books.incentive params hparams)
      have gross : 0 ≤ quote.repayAmount * (bps + params.liquidationIncentiveBps) :=
        mul_nonneg terms.pos.le rate
      have value := tdiv_mul_le gross (show (0 : ℤ) < bps by decide)
      have inScale := tdiv_mul_le (mul_nonneg (tdiv_nonneg gross (show (0 : ℤ) < bps by decide))
        (show (0 : ℤ) ≤ priceScale by decide)) pos
      have taken := mul_le_mul_of_nonneg_right terms.seized pos.le
      rw [Store.getD_set, if_pos rfl]
      unfold bps priceScale at *
      linarith
    · -- the whole position is taken, and it is worth less than the minimal ratio
      obtain ⟨_, _, _, _, _, _, accrued', hparams', hprice', hratio, low, rfl⟩ :=
        selfLiquidate_ok h
      obtain ⟨rfl, rfl, rfl, rfl⟩ := accrued_terms hparams accrued hprice accrued' hparams' hprice'
      obtain ⟨_, -, -, -, -, nonneg⟩ := books.accrue accrued
      have owes : 0 < p.debtAmount := by
        by_contra none
        rw [collateralRatioBps, if_pos (not_lt.1 none)] at hratio
        obtain rfl := pure_ok_iff.1 hratio
        have := typed.2
        omega
      have worth := collateral_lt_of_ratio_lt owes (mul_nonneg nonneg pos.le) hratio
        (low.trans_le config)
      rw [Store.getD_set, if_pos rfl]
      dsimp only
      rw [sub_zero, sub_zero, mul_comm p.debtAmount]
      exact worth.le
  · intro nonneg above cap
    obtain ⟨⟨r, w'⟩, closed⟩ : ∃ r, selfLiquidate (openEnv cdp 1) user (lent cdp user params) =
        .ok r := lent_closed above nonneg cap
    have reach := ((Reachable.start (opened_initial above nonneg cap)).next
      (step_call (opened_deposit above nonneg cap other))).next
      (step_call (locked_mint above nonneg cap other))
    refine ⟨lent cdp user params, w', _, openEnv cdp 1, user, _, r, 1, reach, lent_accrued, rfl,
      closed, ?_⟩
    obtain ⟨_, _, _, _, _, _, -, -, -, -, -, rfl⟩ := selfLiquidate_ok closed
    rw [seizureBounded_iff]
    unfold readPosition
    rw [Store.getD_set, if_pos rfl]
    unfold topUp bps priceScale
    dsimp only
    omega

end Contract

/-- With a minimal ratio of 109% and an incentive of 10%, a position closed at 108% is taken for no
more than its debt with the incentive. -/
theorem borrowed_seizure : ∃ w p w', borrowed 10900 = .ok w ∧
    selfLiquidate (signedAt 100 3600000) 2 w = .ok (p, w') ∧
    SeizureBounded ⟨10900, 1000⟩ 3600000 ⟨3000000, 1000000, 100⟩
      (readPosition (signedAt 100 3600000).toEnv w' 2) := by
  obtain ⟨w, hw, ⟨p, w'⟩, closed, ⟨q, w₁⟩, accrued, hq, price, hprice, hp⟩ :
      ∃ w, borrowed 10900 = .ok w ∧ ∃ r, selfLiquidate (signedAt 100 3600000) 2 w = .ok r ∧
        ∃ s, accruePosition (signedAt 100 3600000) 2 w = .ok s ∧ s.1 = ⟨3000000, 1000000, 100⟩ ∧
          ∃ price, oraclePrice (signedAt 100 3600000) w = .ok price ∧ price = 3600000 := by
    decide +kernel
  have reach := (borrowed_reachable (by decide) hw).of_guarded
  subst hp
  obtain rfl : q = ⟨3000000, 1000000, 100⟩ := hq
  have other : (1 : ℕ) ≠ 0 := by decide
  exact ⟨w, p, w', hw, closed, (seizures_bounded_iff other).1 w w' w₁ _ 2 _ _ reach accrued hprice
    (Or.inr ⟨⟨p, closed⟩, by decide⟩)⟩

/-- With a minimal ratio of 150% and an incentive of 10%, a position closed at 135% loses 35% more
than its debt. -/
theorem selfLiquidate_takes_too_much :
    ∃ (w w' w₁ : World ℕ) (p closed : Position),
      Reachable (InitialWith 0 ⟨15000, 1000⟩) (Step 0) w ∧
      selfLiquidate (signedAt 100 4500000) 2 w = .ok (closed, w') ∧
      accruePosition (signedAt 100 4500000) 2 w = .ok (p, w₁) ∧
      ¬ SeizureBounded ⟨15000, 1000⟩ 4500000 p
        (readPosition (signedAt 100 4500000).toEnv w' 2) := by
  obtain ⟨w, hw, ⟨closed, w'⟩, h, ⟨p, w₁⟩, accrued, more⟩ : ∃ w, borrowed 15000 = .ok w ∧
      ∃ r, selfLiquidate (signedAt 100 4500000) 2 w = .ok r ∧
      ∃ s, accruePosition (signedAt 100 4500000) 2 w = .ok s ∧
        ¬ (s.1.collateralAmount -
            (readPosition (signedAt 100 4500000).toEnv r.2 2).collateralAmount) *
            4500000 * bps ≤
          ((s.1.debtAmount - (readPosition (signedAt 100 4500000).toEnv r.2 2).debtAmount) *
            (bps + 1000) + bps) * priceScale := by
    decide +kernel
  exact ⟨w, w', w₁, p, closed, (borrowed_reachable (by decide) hw).of_guarded, h, accrued,
    fun bounded => more (seizureBounded_iff.1 bounded)⟩

end Cdp
