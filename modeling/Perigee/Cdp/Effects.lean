import Perigee.Cdp.Contract
import Perigee.Arith.Rounding

/-!
# What the calls do

One inversion lemma per entry point: the guards that a successful call has passed, and the state it
leaves.
-/

namespace Cdp

open Soroban Rounding

theorem checkedAdd_ok_iff {a b y : ℤ} : checkedAdd a b = .ok y ↔ IsI128 (a + b) ∧ a + b = y :=
  checkedI128_ok_iff

theorem checkedSub_ok_iff {a b y : ℤ} : checkedSub a b = .ok y ↔ IsI128 (a - b) ∧ a - b = y :=
  checkedI128_ok_iff

theorem checkedMul_ok_iff {a b y : ℤ} : checkedMul a b = .ok y ↔ IsI128 (a * b) ∧ a * b = y :=
  checkedI128_ok_iff

/-- Dividing twice rounds down to a positive number from the product of the divisors on. -/
theorem tdiv_tdiv_pos_iff {x a b : ℤ} (ha : 0 < a) (hb : 0 < b) :
    0 < (x.tdiv a).tdiv b ↔ a * b ≤ x := by
  rcases le_or_gt 0 x with nonneg | neg
  · rw [Int.tdiv_eq_ediv_of_nonneg nonneg,
      Int.tdiv_eq_ediv_of_nonneg (Int.ediv_nonneg nonneg ha.le),
      Int.ediv_ediv_of_nonneg ha.le, ← Int.add_one_le_iff, Int.le_ediv_iff_mul_le (mul_pos ha hb),
      zero_add, one_mul]
  · have opposite := Int.tdiv_nonneg (Int.tdiv_nonneg (neg_nonneg.2 neg.le) ha.le) hb.le
    rw [Int.neg_tdiv, Int.neg_tdiv] at opposite
    have product := mul_pos ha hb
    omega

section Contract

variable {Address : Type} [DecidableEq Address] {cdp : Address} {env : OracleEnv cdp}
  {w w' : World Address} {user : Address} {amount : ℤ} {p : Position} {r : Position}
  {borrower : Address} {requested : ℤ} {quote : LiquidationQuote}

omit [DecidableEq Address] in
theorem oraclePrice_ok {price : ℤ} (h : oraclePrice env w = .ok price) : 0 < price := by
  simp only [oraclePrice, ok_iff, not_le] at h
  obtain ⟨_, -, _, positive, rfl⟩ := h
  exact positive

/-! ## Interest -/

/-- The interest that a call would charge the user rounds down to zero. -/
def NoInterest (env : OracleEnv cdp) (w : World Address) (user : Address) : Prop :=
  let position := readPosition env.toEnv w user
  position.debtAmount ≤ 0 ∨ env.sequence ≤ position.lastAccrualLedger ∨
    ∀ model price utilization rateBps, readInterestModel w = .ok model →
      oraclePrice env w = .ok price → utilizationBps w price = .ok utilization →
      borrowRateBps model utilization = .ok rateBps →
      position.debtAmount * rateBps * (env.sequence - position.lastAccrualLedger : ℕ) <
        bps * ledgersPerYear

theorem accruePosition_ok (h : accruePosition env user w = .ok (p, w')) :
    ∃ interest, 0 ≤ interest ∧ (interest = 0 ↔ NoInterest env w user) ∧
      p = ⟨(readPosition env.toEnv w user).collateralAmount,
        (readPosition env.toEnv w user).debtAmount + interest, env.sequence⟩ ∧
      w' = { w with
        positions := w.positions.set user p
        totalDebt := w.totalDebt + interest
        totalStableSupply := w.totalStableSupply + interest } := by
  unfold accruePosition at h
  dsimp only at h
  split_ifs at h with idle
  · obtain ⟨rfl, rfl⟩ := Prod.mk.inj (pure_ok_iff.1 h)
    have none : NoInterest env w user := idle.imp_right Or.inl
    refine ⟨0, le_rfl, iff_of_true rfl none, ?_, ?_⟩
    · rw [add_zero]
    · rw [add_zero, add_zero]
      rfl
  · obtain ⟨owes, since⟩ := not_or.1 idle
    simp only [ok_iff, checkedMul_ok_iff] at h
    obtain ⟨_, hmodel, _, hprice, _, hutil, rateBps, hrate, _, ⟨-, rfl⟩, _,
      ⟨-, rfl⟩, _, ⟨-, -, rfl⟩, _, ⟨-, -, rfl⟩, h⟩ := h
    have positive := tdiv_tdiv_pos_iff (x := (readPosition env.toEnv w user).debtAmount * rateBps *
      (env.sequence - (readPosition env.toEnv w user).lastAccrualLedger : ℕ))
      (show (0 : ℤ) < bps by decide) (show (0 : ℤ) < ledgersPerYear by decide)
    have small : NoInterest env w user ↔ (readPosition env.toEnv w user).debtAmount * rateBps *
        (env.sequence - (readPosition env.toEnv w user).lastAccrualLedger : ℕ) <
          bps * ledgersPerYear := by
      constructor
      · rintro (owesNot | now | small)
        · exact absurd owesNot owes
        · exact absurd now since
        · exact small _ _ _ _ hmodel hprice hutil hrate
      · intro small
        refine Or.inr (Or.inr fun _ _ _ _ h₁ h₂ h₃ h₄ => ?_)
        obtain rfl := Except.ok.inj (hmodel.symm.trans h₁)
        obtain rfl := Except.ok.inj (hprice.symm.trans h₂)
        obtain rfl := Except.ok.inj (hutil.symm.trans h₃)
        obtain rfl := Except.ok.inj (hrate.symm.trans h₄)
        exact small
    split_ifs at h with charged
    · simp only [ok_iff, checkedAdd_ok_iff] at h
      obtain ⟨_, ⟨-, rfl⟩, _, ⟨-, rfl⟩, _, ⟨-, rfl⟩, rfl, rfl⟩ := h
      exact ⟨_, charged.le, iff_of_false charged.ne' (fun none => absurd (small.1 none) (by omega)),
        rfl, rfl⟩
    · obtain ⟨rfl, rfl⟩ := Prod.mk.inj (pure_ok_iff.1 h)
      refine ⟨0, le_rfl, iff_of_true rfl (small.2 (not_le.1 (mt positive.2 charged))), ?_, ?_⟩
      · rw [add_zero]
      · rw [add_zero, add_zero]
        rfl

theorem readPosition_of_accrue (h : accruePosition env user w = .ok (p, w')) :
    readPosition env.toEnv w' user = p := by
  obtain ⟨_, -, -, -, rfl⟩ := accruePosition_ok h
  unfold readPosition
  rw [Store.getD_set, if_pos rfl]

theorem accrue_frame (h : accruePosition env user w = .ok (p, w')) :
    w'.collateralToken = w.collateralToken ∧ w'.riskParams = w.riskParams ∧
      oraclePrice env w' = oraclePrice env w := by
  obtain ⟨_, -, -, -, rfl⟩ := accruePosition_ok h
  exact ⟨rfl, rfl, rfl⟩

/-! ## Entry points -/

theorem depositCollateral_ok (h : depositCollateral env user amount w = .ok (r, w')) :
    ∃ token p w₁ tokens, env.auth user = true ∧ 0 < amount ∧ w.collateralToken = some token ∧
      accruePosition env user w = .ok (p, w₁) ∧
      (w₁.tokens.transfer token user cdp amount : Outcome Error _) = .ok tokens ∧
      r = { p with collateralAmount := p.collateralAmount + amount } ∧
      w' = { w₁ with
        positions := w₁.positions.set user r, tokens
        totalCollateral := w₁.totalCollateral + amount } := by
  simp only [depositCollateral, ok_iff, requireAuth_ok_iff, checkedAdd_ok_iff, not_le] at h
  obtain ⟨_, auth, _, pos, token, htoken, ⟨p, w₁⟩, accrued, tokens, paid, _, ⟨-, rfl⟩, _,
    ⟨-, rfl⟩, rfl, rfl⟩ := h
  exact ⟨token, p, w₁, tokens, auth, pos, htoken, accrued, paid, rfl, rfl⟩

theorem repay_ok (h : repay env user amount w = .ok (r, w')) :
    ∃ p w₁ repaid, env.auth user = true ∧ accruePosition env user w = .ok (p, w₁) ∧ 0 < repaid ∧
      repaid ≤ amount ∧ repaid ≤ readStableBalance w₁ user ∧ repaid ≤ p.debtAmount ∧
      r = { p with debtAmount := p.debtAmount - repaid } ∧
      w' = { w₁ with
        positions := w₁.positions.set user r
        stableBalances := w₁.stableBalances.set user (readStableBalance w₁ user - repaid)
        totalDebt := w₁.totalDebt - repaid
        totalStableSupply := w₁.totalStableSupply - repaid } := by
  simp only [repay, ok_iff, requireAuth_ok_iff, checkedSub_ok_iff, not_le] at h
  obtain ⟨_, auth, _, -, ⟨p, w₁⟩, accrued, _, -, _, positive, _, ⟨-, rfl⟩, _, ⟨-, rfl⟩, _,
    ⟨-, rfl⟩, _, ⟨-, rfl⟩, rfl, rfl⟩ := h
  refine ⟨p, w₁, _, auth, accrued, positive, ?_, ?_, ?_, rfl, rfl⟩
  all_goals
    dsimp only
    split_ifs <;> omega

theorem transferStable_ok {env : Env cdp} {src dst : Address}
    (h : transferStable env src dst amount w = .ok w') :
    0 < amount ∧ amount ≤ readStableBalance w src ∧
      w' = writeStableBalance (writeStableBalance w src (readStableBalance w src - amount)) dst
        (readStableBalance (writeStableBalance w src (readStableBalance w src - amount)) dst +
          amount) := by
  simp only [transferStable, ok_iff, checkedSub_ok_iff, checkedAdd_ok_iff, not_le, not_lt] at h
  obtain ⟨_, -, _, pos, _, enough, _, ⟨-, rfl⟩, _, ⟨-, rfl⟩, rfl⟩ := h
  exact ⟨pos, enough, rfl⟩

/-- The value that a liquidation takes for a repayment, and the collateral for that value. -/
structure Quoted (params : RiskParams) (price : ℤ) (p : Position) (quote : LiquidationQuote) :
    Prop where
  pos : 0 < quote.repayAmount
  owed : quote.repayAmount ≤ p.debtAmount
  held : quote.collateralToSeize ≤ p.collateralAmount
  seized : quote.collateralToSeize ≤
    ((quote.repayAmount * (bps + params.liquidationIncentiveBps)).tdiv
    bps * priceScale).tdiv price
  nonneg : 0 ≤ bps + params.liquidationIncentiveBps → 0 ≤ p.collateralAmount →
    0 ≤ quote.collateralToSeize

theorem quoteLiquidation_ok (h : quoteLiquidation env borrower requested w = .ok (quote, w')) :
    ∃ p params price, accruePosition env borrower w = .ok (p, w') ∧ w'.riskParams = some params ∧
      oraclePrice env w' = .ok price ∧ Quoted params price p quote := by
  simp only [quoteLiquidation, readRiskParams, ok_iff, checkedMul_ok_iff, not_le] at h
  obtain ⟨_, -, ⟨p, _⟩, accrued, params, hparams, price, hprice, _, -, _, -, _, -, _, -, _,
    ⟨-, rfl⟩, _, -, _, positive, _, ⟨-, rfl⟩, _, ⟨-, -, rfl⟩, _, ⟨-, rfl⟩, _, ⟨-, -, rfl⟩, _, -,
    rfl, rfl⟩ := h
  refine ⟨p, params, price, accrued, hparams, hprice, positive, ?_, ?_, ?_, ?_⟩
  · exact (min_le_left _ _).trans (min_le_right _ _)
  · dsimp only
    split_ifs <;> omega
  · dsimp only
    split_ifs <;> omega
  · intro incentive collateral
    have value := Int.tdiv_nonneg (mul_nonneg positive.le incentive) (show (0 : ℤ) ≤ bps by decide)
    have scaled := Int.tdiv_nonneg (mul_nonneg value (show (0 : ℤ) ≤ priceScale by decide))
      (oraclePrice_ok hprice).le
    split_ifs
    · exact collateral
    · exact scaled

theorem liquidate_ok {liquidator : Address}
    (h : liquidate env liquidator borrower requested w = .ok (quote, w')) :
    ∃ token p w₁ params price tokens, env.auth liquidator = true ∧
      accruePosition env borrower w = .ok (p, w₁) ∧ w₁.riskParams = some params ∧
      oraclePrice env w₁ = .ok price ∧ Quoted params price p quote ∧
      quote.repayAmount ≤ readStableBalance w₁ liquidator ∧ w₁.collateralToken = some token ∧
      (w₁.tokens.transfer token cdp liquidator quote.collateralToSeize : Outcome Error _) =
        .ok tokens ∧
      w' = { w₁ with
        positions := w₁.positions.set borrower { p with
          debtAmount := p.debtAmount - quote.repayAmount
          collateralAmount := p.collateralAmount - quote.collateralToSeize }
        stableBalances := w₁.stableBalances.set liquidator
          (readStableBalance w₁ liquidator - quote.repayAmount)
        totalDebt := w₁.totalDebt - quote.repayAmount
        totalStableSupply := w₁.totalStableSupply - quote.repayAmount
        totalCollateral := w₁.totalCollateral - quote.collateralToSeize, tokens } := by
  simp only [liquidate, ok_iff, requireAuth_ok_iff, checkedSub_ok_iff, not_lt] at h
  obtain ⟨_, auth, ⟨_, w₁⟩, quoted, _, enough, token, htoken, _, ⟨-, rfl⟩, _, ⟨-, rfl⟩, _,
    ⟨-, rfl⟩, _, ⟨-, rfl⟩, _, ⟨-, rfl⟩, _, ⟨-, rfl⟩, tokens, paid, rfl, rfl⟩ := h
  obtain ⟨p, params, price, accrued, hparams, hprice, terms⟩ := quoteLiquidation_ok quoted
  refine ⟨token, p, w₁, params, price, tokens, auth, accrued, hparams, hprice, terms, enough,
    htoken, paid, ?_⟩
  rw [readPosition_of_accrue accrued]
  rfl

/-- Self-liquidation clears the whole debt, splitting it into a repaid and a bad part, and takes the
whole collateral. -/
theorem selfLiquidate_ok (h : selfLiquidate env borrower w = .ok (r, w')) :
    ∃ p w₁ params price ratio badDebt, accruePosition env borrower w = .ok (p, w₁) ∧
      w₁.riskParams = some params ∧ oraclePrice env w₁ = .ok price ∧
      collateralRatioBps price p.collateralAmount p.debtAmount = .ok ratio ∧
      ratio < params.minCollateralRatioBps ∧
      w' = { w₁ with
        positions := w₁.positions.set borrower ⟨0, 0, env.sequence⟩
        protocolCollateralReserves := w₁.protocolCollateralReserves + p.collateralAmount
        totalBadDebt := w₁.totalBadDebt + badDebt
        totalDebt := w₁.totalDebt - (p.debtAmount - badDebt)
        totalCollateral := w₁.totalCollateral - p.collateralAmount } := by
  simp only [selfLiquidate, readRiskParams, ok_iff, checkedAdd_ok_iff, checkedSub_ok_iff,
    not_le] at h
  obtain ⟨⟨p, w₁⟩, accrued, params, hparams, price, hprice, ratio, hratio, _, low, _, -, _, -, _, -,
    _, -, badDebt, -, _, ⟨-, rfl⟩, _, ⟨-, rfl⟩, _, ⟨-, rfl⟩, _, ⟨-, rfl⟩, _, ⟨-, rfl⟩, rfl,
    rfl⟩ := h
  exact ⟨p, w₁, params, price, ratio, badDebt, accrued, hparams, hprice, hratio, low, rfl⟩

end Contract

end Cdp
