import Perigee.Cdp.Effects
import Perigee.Soroban.Ledger

/-!
# The books of the debt contract

In every reachable state the totals agree with the positions, nothing is negative, and the tokens of
the contract cover the collateral and the reserves.  But each accrual adds its interest to the
supply of the coin and to nobody's balance.
-/

namespace Cdp

open Soroban

section Contract

variable {Address : Type} [DecidableEq Address] {cdp : Address} {env : OracleEnv cdp}
  {w w' : World Address} {excess : ℤ}

/-- The totals agree with the positions, and the supply exceeds the balances by `excess`. -/
structure Books (cdp : Address) (excess : ℤ) (w : World Address) : Prop where
  debt : w.totalDebt = w.positions.sumBy (fun _ p => p.debtAmount) + w.totalBadDebt
  collateral : w.totalCollateral = w.positions.sumBy fun _ p => p.collateralAmount
  positions : ∀ user p, w.positions.lookup user = some p →
    0 ≤ p.debtAmount ∧ 0 ≤ p.collateralAmount
  balances : Balanced w.stableBalances (w.totalStableSupply - excess)
  incentive : ∀ params ∈ w.riskParams, 0 ≤ params.liquidationIncentiveBps
  backed : ∀ token ∈ w.collateralToken,
    w.totalCollateral + w.protocolCollateralReserves ≤ w.tokens token cdp

namespace Books

theorem read_nonneg (books : Books cdp excess w) (env : Env cdp) (user : Address) :
    0 ≤ (readPosition env w user).debtAmount ∧ 0 ≤ (readPosition env w user).collateralAmount := by
  unfold readPosition Store.getD
  cases h : w.positions.lookup user with
  | none => exact ⟨le_rfl, le_rfl⟩
  | some p => exact books.positions user p h

/-- The rule for a call that rewrites one position: the totals move with it, and the tokens of the
contract move at least with the collateral and the reserves. -/
theorem write {env : Env cdp} {user : Address} {p p' : Position} {excess' : ℤ}
    (books : Books cdp excess w) (read : readPosition env w user = p)
    (positions : w'.positions = w.positions.set user p')
    (nonneg : 0 ≤ p'.debtAmount ∧ 0 ≤ p'.collateralAmount)
    (debt : w'.totalDebt - w'.totalBadDebt = w.totalDebt - w.totalBadDebt +
      (p'.debtAmount - p.debtAmount))
    (collateral : w'.totalCollateral = w.totalCollateral +
      (p'.collateralAmount - p.collateralAmount))
    (balances : Balanced w'.stableBalances (w'.totalStableSupply - excess'))
    (params : w'.riskParams = w.riskParams) (token : w'.collateralToken = w.collateralToken)
    (backed : ∀ token ∈ w.collateralToken, w'.totalCollateral + w'.protocolCollateralReserves -
      (w.totalCollateral + w.protocolCollateralReserves) ≤
        w'.tokens token cdp - w.tokens token cdp) : Books cdp excess' w' := by
  subst read
  have debts := Store.share_add_sumBy_set (fun _ p => p.debtAmount) w.positions user p'
  have collaterals := Store.share_add_sumBy_set (fun _ p => p.collateralAmount) w.positions user p'
  rw [Store.share_eq_getD _ _ _ (d := ⟨0, 0, env.sequence⟩) rfl] at debts collaterals
  have debt₀ := books.debt
  have collateral₀ := books.collateral
  refine ⟨?_, ?_, ?_, balances, ?_, ?_⟩
  · rw [positions]
    unfold readPosition at debt
    linarith
  · rw [positions]
    unfold readPosition at collateral
    linarith
  · rw [positions]
    exact Store.forall_set books.positions nonneg
  · rw [params]
    exact books.incentive
  · rw [token]
    intro t ht
    have before := books.backed t ht
    have moved := backed t ht
    linarith

/-- An accrual keeps the books, and its interest is the new excess. -/
theorem accrue {user : Address} {p : Position} (books : Books cdp excess w)
    (h : accruePosition env user w = .ok (p, w')) :
    ∃ interest, 0 ≤ interest ∧ (interest = 0 ↔ NoInterest env w user) ∧
      Books cdp (excess + interest) w' ∧ 0 ≤ p.debtAmount ∧ 0 ≤ p.collateralAmount := by
  obtain ⟨interest, nonneg, zero, hp, rfl⟩ := accruePosition_ok h
  have before := books.read_nonneg env.toEnv user
  have after : 0 ≤ p.debtAmount ∧ 0 ≤ p.collateralAmount := by
    rw [hp]
    exact ⟨add_nonneg before.1 nonneg, before.2⟩
  have balances : Balanced w.stableBalances
      (w.totalStableSupply + interest - (excess + interest)) := by
    rw [add_sub_add_right_eq_sub]
    exact books.balances
  refine ⟨interest, nonneg, zero, ?_, after⟩
  refine books.write (rfl : _ = readPosition env.toEnv w user) rfl after ?_ ?_ balances rfl rfl ?_
  · rw [hp]
    ring
  · rw [hp]
    simp
  · intro _ _
    simp

theorem move_balance (books : Books cdp excess w) (user : Address) {d : ℤ}
    (covered : 0 ≤ readStableBalance w user + d) :
    Balanced (w.stableBalances.set user (readStableBalance w user + d))
      (w.totalStableSupply + d - excess) := by
  have moved := books.balances.add covered
  rwa [sub_add_eq_add_sub] at moved

variable {user : Address} {amount : ℤ} {r : Position}

/-- What a call that accrues the interest of `user` does to the books. -/
def Kept (env : OracleEnv cdp) (excess : ℤ) (user : Address) (w w' : World Address) : Prop :=
  ∃ interest, 0 ≤ interest ∧ (interest = 0 ↔ NoInterest env w user) ∧
    Books cdp (excess + interest) w'

theorem deposit (books : Books cdp excess w)
    (h : depositCollateral env user amount w = .ok (r, w')) :
    Kept env excess user w w' ∧ w'.riskParams = w.riskParams := by
  obtain ⟨token, p, _, _, auth, pos, htoken, accrued, paid, rfl, rfl⟩ :=
    depositCollateral_ok h
  obtain ⟨interest, nonneg, zero, books₁, hp⟩ := books.accrue accrued
  have sameToken := (accrue_frame accrued).1
  refine ⟨⟨interest, nonneg, zero, ?_⟩, (accrue_frame accrued).2.1⟩
  refine books₁.write (readPosition_of_accrue accrued) rfl ⟨hp.1, add_nonneg hp.2 pos.le⟩ ?_ ?_
    books₁.balances rfl rfl ?_
  · simp
  · simp
  · intro t ht
    obtain rfl := Option.some.inj (htoken.symm.trans (sameToken.symm.trans ht))
    have received := Tokens.transfer_apply paid token cdp
    rw [if_neg (fun same => Env.ne_this auth same.2.symm), if_pos ⟨rfl, rfl⟩] at received
    linarith

theorem withdraw (books : Books cdp excess w)
    (h : withdrawCollateral env user amount w = .ok (r, w')) :
    Kept env excess user w w' ∧ w'.riskParams = w.riskParams := by
  simp only [withdrawCollateral, writePosition, ok_iff, requireAuth_ok_iff, checkedSub_ok_iff,
    not_lt] at h
  obtain ⟨_, auth, _, -, token, htoken, ⟨p, _⟩, accrued, _, enough, _, ⟨-, rfl⟩, _, -, _, ⟨-, rfl⟩,
    _, paid, rfl, rfl⟩ := h
  obtain ⟨interest, nonneg, zero, books₁, hp⟩ := books.accrue accrued
  have sameToken := (accrue_frame accrued).1
  refine ⟨⟨interest, nonneg, zero, ?_⟩, (accrue_frame accrued).2.1⟩
  refine books₁.write (readPosition_of_accrue accrued) rfl ⟨hp.1, sub_nonneg.2 enough⟩ ?_ ?_
    books₁.balances rfl rfl ?_
  · simp
  · ring
  · intro t ht
    obtain rfl := Option.some.inj (htoken.symm.trans (sameToken.symm.trans ht))
    have spent := Tokens.transfer_apply paid token cdp
    rw [if_pos ⟨rfl, rfl⟩, if_neg (fun same => Env.ne_this auth same.2.symm)] at spent
    linarith

theorem mint (books : Books cdp excess w) (h : mintStable env user amount w = .ok (r, w')) :
    Kept env excess user w w' ∧ w'.riskParams = w.riskParams := by
  simp only [mintStable, writePosition, writeStableBalance, ok_iff, checkedAdd_ok_iff, not_le] at h
  obtain ⟨_, -, _, pos, ⟨p, w₁⟩, accrued, _, ⟨-, rfl⟩, _, -, _, ⟨-, rfl⟩, _, ⟨-, rfl⟩, _, ⟨-, rfl⟩,
    rfl, rfl⟩ := h
  obtain ⟨interest, nonneg, zero, books₁, hp⟩ := books.accrue accrued
  have held : 0 ≤ readStableBalance w₁ user := books₁.balances.getD_nonneg user
  refine ⟨⟨interest, nonneg, zero, ?_⟩, (accrue_frame accrued).2.1⟩
  refine books₁.write (readPosition_of_accrue accrued) rfl ⟨add_nonneg hp.1 pos.le, hp.2⟩ ?_ ?_
    (books₁.move_balance user (add_nonneg held pos.le)) rfl rfl ?_
  · ring
  · simp
  · intro _ _
    simp

theorem repaid (books : Books cdp excess w) (h : repay env user amount w = .ok (r, w')) :
    Kept env excess user w w' ∧ w'.riskParams = w.riskParams := by
  obtain ⟨p, _, repaid, -, accrued, _, -, _, owed, rfl, rfl⟩ := repay_ok h
  obtain ⟨interest, nonneg, zero, books₁, hp⟩ := books.accrue accrued
  refine ⟨⟨interest, nonneg, zero, ?_⟩, (accrue_frame accrued).2.1⟩
  have balances := books₁.move_balance user (d := -repaid) (by omega)
  refine books₁.write (readPosition_of_accrue accrued) rfl ⟨sub_nonneg.2 owed, hp.2⟩ ?_ ?_ balances
    rfl rfl ?_
  · ring
  · simp
  · intro _ _
    simp

theorem liquidated {liquidator borrower : Address} {quote : LiquidationQuote}
    (books : Books cdp excess w)
    (h : liquidate env liquidator borrower amount w = .ok (quote, w')) :
    Kept env excess borrower w w' ∧ w'.riskParams = w.riskParams := by
  obtain ⟨token, p, _, params, _, _, auth, accrued, hparams, -, terms, _, htoken, paid,
    rfl⟩ := liquidate_ok h
  obtain ⟨interest, nonneg, zero, books₁, hp⟩ := books.accrue accrued
  have incentive := books₁.incentive params hparams
  refine ⟨⟨interest, nonneg, zero, ?_⟩, (accrue_frame accrued).2.1⟩
  have balances := books₁.move_balance liquidator (d := -quote.repayAmount) (by omega)
  refine books₁.write (readPosition_of_accrue accrued) rfl
    ⟨sub_nonneg.2 terms.owed, sub_nonneg.2 terms.held⟩ ?_ ?_ balances
    rfl rfl ?_
  · ring
  · dsimp only
    ring
  · intro t ht
    obtain rfl := Option.mem_unique htoken ht
    have spent := Tokens.transfer_apply paid token cdp
    rw [if_pos ⟨rfl, rfl⟩, if_neg (fun same => Env.ne_this auth same.2.symm)] at spent
    linarith

theorem selfLiquidated {borrower : Address} (books : Books cdp excess w)
    (h : selfLiquidate env borrower w = .ok (r, w')) :
    Kept env excess borrower w w' ∧ w'.riskParams = w.riskParams := by
  obtain ⟨p, _, _, _, _, _, accrued, -, -, -, -, rfl⟩ := selfLiquidate_ok h
  obtain ⟨interest, nonneg, zero, books₁, _⟩ := books.accrue accrued
  refine ⟨⟨interest, nonneg, zero, ?_⟩, (accrue_frame accrued).2.1⟩
  refine books₁.write (readPosition_of_accrue accrued) rfl ⟨le_rfl, le_rfl⟩ ?_ ?_
    books₁.balances rfl rfl ?_
  · ring
  · dsimp only
    ring
  · intro _ _
    linarith

theorem transfer {env : Env cdp} {src dst : Address} (books : Books cdp excess w)
    (h : transferStable env src dst amount w = .ok w') : Books cdp excess w' := by
  obtain ⟨pos, _, rfl⟩ := transferStable_ok h
  have left := books.balances.add (k := src) (d := -amount)
    (by change 0 ≤ readStableBalance w src + -amount; omega)
  have received := left.add (k := dst) (d := amount)
    (add_nonneg (left.getD_nonneg dst) pos.le)
  rw [neg_add_cancel_right] at received
  exact { books with balances := received }

end Books

/-! ## Every step -/

def Call.accrued : Call Address → Option Address
  | .setOracle _ => none
  | .depositCollateral user _ => some user
  | .withdrawCollateral user _ => some user
  | .mintStable user _ => some user
  | .repay user _ => some user
  | .transferStable .. => none
  | .quoteLiquidation borrower _ => some borrower
  | .liquidate _ borrower _ => some borrower
  | .selfLiquidate borrower => some borrower

def ChargesNothing (w : World Address) : Action cdp → Prop
  | .call env c => ∀ user ∈ c.accrued, NoInterest env w user
  | .external _ => True

theorem Books.step {action : Action cdp} (books : Books cdp excess w)
    (step : Step cdp w action w') :
    (∃ interest, 0 ≤ interest ∧ (interest = 0 ↔ ChargesNothing w action) ∧
      Books cdp (excess + interest) w') ∧ w'.riskParams = w.riskParams := by
  have unchanged (kept : Books cdp excess w') (nothing : ChargesNothing w action) :
      ∃ interest, 0 ≤ interest ∧ (interest = 0 ↔ ChargesNothing w action) ∧
        Books cdp (excess + interest) w' := by
    refine ⟨0, le_rfl, iff_of_true rfl nothing, ?_⟩
    rwa [add_zero]
  cases action with
  | external =>
    obtain ⟨grows, rfl⟩ := step
    exact ⟨unchanged { books with
      backed := fun token h => (books.backed token h).trans (grows token) } trivial, rfl⟩
  | call env c =>
    have accrues {user : Address} (hc : c.accrued = some user)
        (kept : Books.Kept env excess user w w' ∧ w'.riskParams = w.riskParams) :
        (∃ interest, 0 ≤ interest ∧ (interest = 0 ↔ ChargesNothing w (.call env c)) ∧
          Books cdp (excess + interest) w') ∧ w'.riskParams = w.riskParams := by
      unfold ChargesNothing
      simp only [hc, Option.mem_some_iff, forall_eq']
      exact kept
    change exec env w c = .ok w' at step
    cases c with
    | setOracle =>
      simp only [exec, setOracle, ok_iff] at step
      obtain ⟨_, -, rfl⟩ := step
      exact ⟨unchanged { books with } (fun user h => nomatch h), rfl⟩
    | transferStable =>
      refine ⟨unchanged (books.transfer step) (fun _ h => nomatch h), ?_⟩
      obtain ⟨-, -, rfl⟩ := transferStable_ok step
      rfl
    | depositCollateral =>
      obtain ⟨r, h⟩ := map_snd_ok_iff.1 step
      exact accrues rfl (books.deposit h)
    | withdrawCollateral =>
      obtain ⟨r, h⟩ := map_snd_ok_iff.1 step
      exact accrues rfl (books.withdraw h)
    | mintStable =>
      obtain ⟨r, h⟩ := map_snd_ok_iff.1 step
      exact accrues rfl (books.mint h)
    | repay =>
      obtain ⟨r, h⟩ := map_snd_ok_iff.1 step
      exact accrues rfl (books.repaid h)
    | quoteLiquidation =>
      obtain ⟨r, h⟩ := map_snd_ok_iff.1 step
      obtain ⟨p, _, _, accrued, -⟩ := quoteLiquidation_ok h
      obtain ⟨interest, nonneg, zero, kept, -⟩ := books.accrue accrued
      exact accrues rfl ⟨⟨interest, nonneg, zero, kept⟩, (accrue_frame accrued).2.1⟩
    | liquidate =>
      obtain ⟨r, h⟩ := map_snd_ok_iff.1 step
      exact accrues rfl (books.liquidated h)
    | selfLiquidate =>
      obtain ⟨r, h⟩ := map_snd_ok_iff.1 step
      exact accrues rfl (books.selfLiquidated h)

omit [DecidableEq Address] in
theorem initial_of_with {params : RiskParams} (w : World Address)
    (init : InitialWith cdp params w) :
    Initial cdp w := ⟨params, init⟩

theorem step_call {c : Call Address} (h : exec env w c = .ok w') : Step cdp w (.call env c) w' := h

theorem initial_books (init : Initial cdp w) : Books cdp 0 w := by
  obtain ⟨_, _, _, _, _, _, _, _, tokens, nonneg, -, h⟩ := init
  simp only [initializeCdp, ok_iff, not_or, not_lt] at h
  obtain ⟨_, -, _, ⟨-, incentive, -, -⟩, rfl⟩ := h
  refine ⟨rfl, rfl, fun _ p h => ?_, .empty, fun _ h => ?_, fun token' _ => nonneg token'⟩
  · simp at h
  · obtain rfl := Option.some.inj h
    exact incentive

/-- The totals agree with the positions, no debt, collateral or balance is negative, and the tokens
of the contract cover the collateral and the reserves. -/
theorem totals_agree (reach : Reachable (Initial cdp) (Step cdp) w) :
    w.totalDebt = w.positions.sumBy (fun _ p => p.debtAmount) + w.totalBadDebt ∧
    w.totalCollateral = w.positions.sumBy (fun _ p => p.collateralAmount) ∧
    (∀ user p, w.positions.lookup user = some p → 0 ≤ p.debtAmount ∧ 0 ≤ p.collateralAmount) ∧
    (∀ user balance, w.stableBalances.lookup user = some balance → 0 ≤ balance) ∧
    ∀ token, w.collateralToken = some token →
      w.totalCollateral + w.protocolCollateralReserves ≤ w.tokens token cdp := by
  have kept : ∃ excess, Books cdp excess w := by
    refine reach.invariant (P := fun w => ∃ excess, Books cdp excess w)
      (fun _ init => ⟨0, initial_books init⟩) fun _ _ _ held step => ?_
    obtain ⟨excess, books⟩ := held
    obtain ⟨⟨interest, -, -, books'⟩, -⟩ := books.step step
    exact ⟨_, books'⟩
  obtain ⟨excess, books⟩ := kept
  exact ⟨books.debt, books.collateral, books.positions, books.balances.nonneg, books.backed⟩

/-! ## The supply of the coin -/

/-- Along a run the excess of the supply grows by the interest charged, so it is zero only when no
step charges any. -/
theorem run_books {w₀ : World Address} {actions : List (Action cdp)} (init : Initial cdp w₀)
    (run : Run (Step cdp) w₀ actions w) :
    ∃ excess, 0 ≤ excess ∧ Books cdp excess w ∧
      (excess = 0 → Run (Guarded ChargesNothing (Step cdp)) w₀ actions w) := by
  induction run with
  | nil => exact ⟨0, le_rfl, initial_books init, fun _ => .nil⟩
  | snoc _ last ih =>
    obtain ⟨excess, nonneg, books, free⟩ := ih
    obtain ⟨⟨interest, nonneg', zero, books'⟩, -⟩ := books.step last
    refine ⟨excess + interest, add_nonneg nonneg nonneg', books', fun none => ?_⟩
    have both := (add_eq_zero_iff_of_nonneg nonneg nonneg').1 none
    exact (free both.1).snoc ⟨zero.1 both.2, last⟩

/-- The supply is the sum of all balances exactly in the states that some run reaches without
charging interest. -/
theorem supply_eq_balances_iff (reach : Reachable (Initial cdp) (Step cdp) w) :
    w.totalStableSupply = w.stableBalances.sumBy (fun _ balance => balance) ↔
      Reachable (Initial cdp) (Guarded ChargesNothing (Step cdp)) w := by
  constructor
  · intro _
    obtain ⟨w₀, actions, init, run⟩ := reach
    obtain ⟨excess, -, books, free⟩ := run_books init run
    have zero : excess = 0 := by
      have := books.balances.sum
      omega
    exact ⟨w₀, actions, init, free zero⟩
  · intro free
    have books : Books cdp 0 w := by
      refine free.invariant (fun _ => initial_books) fun _ _ _ books step => ?_
      obtain ⟨⟨interest, -, zero, books'⟩, -⟩ := books.step step.2
      rwa [zero.2 step.1] at books'
    rw [books.balances.sum, sub_zero]

end Contract

/-! ## A year of interest -/

def signedAt (sequence : ℕ) (price : ℤ) : OracleEnv 0 where
  sequence := sequence
  auth a := a != 0
  auth_this := zero_unsigned
  latestPrice _ := price

def funded : Tokens ℕ := fun _ holder => if holder = 0 then 0 else 2 ^ 100

/-- A user locks three units of collateral for each of a million coins, at a price of one and a rate
of five percent. -/
def borrowed (minCollateralRatioBps : ℤ) : Outcome Error (World ℕ) := do
  let w ← initializeCdp 1 8 9 minCollateralRatioBps 1000 500 0 0 5000 { tokens := funded }
  let w ← exec (signedAt 100 priceScale) w (.depositCollateral 2 3000000)
  exec (signedAt 100 priceScale) w (.mintStable 2 1000000)

theorem borrowed_reachable {minRatio : ℤ} {w : World ℕ} (typed : IsI128 minRatio)
    (h : borrowed minRatio = .ok w) :
    Reachable (InitialWith 0 ⟨minRatio, 1000⟩) (Guarded ChargesNothing (Step 0)) w := by
  obtain ⟨w₀, h₀, h⟩ := bind_ok_iff.1 h
  obtain ⟨w₁, h₁, h₂⟩ := bind_ok_iff.1 h
  have start : InitialWith 0 ⟨minRatio, 1000⟩ w₀ :=
    ⟨1, 8, 9, 500, 0, 0, 5000, funded, fun _ => le_rfl, typed, h₀⟩
  have empty : w₀.positions = ∅ := by
    simp only [initializeCdp, ok_iff] at h₀
    obtain ⟨_, -, _, -, rfl⟩ := h₀
    rfl
  have first : ChargesNothing w₀ (.call (signedAt 100 priceScale)
      (.depositCollateral 2 3000000)) := by
    rintro _ ⟨⟩
    left
    rw [readPosition, empty]
    decide
  -- The first accrual is in the same ledger as the second call.
  have second : ChargesNothing w₁ (.call (signedAt 100 priceScale) (.mintStable 2 1000000)) := by
    rintro _ ⟨⟩
    obtain ⟨r, h₁⟩ := map_snd_ok_iff.1 h₁
    obtain ⟨_, p, _, _, -, -, -, accrued, -, rfl, rfl⟩ := depositCollateral_ok h₁
    obtain ⟨_, -, -, hp, -⟩ := accruePosition_ok accrued
    refine Or.inr (Or.inl ?_)
    rw [readPosition, Store.getD_set, if_pos rfl, hp]
  exact ((Reachable.start start).next_guarded (step_call h₁) first).next_guarded (step_call h₂)
    second

/-- The totals after the loan, the collateral covered by tokens of the contract. -/
theorem borrowed_totals : ∃ w, borrowed 15000 = .ok w ∧
    w.totalDebt = w.positions.sumBy (fun _ p => p.debtAmount) + w.totalBadDebt ∧
    w.totalCollateral ≤ w.tokens 8 0 := by
  obtain ⟨w, hw, token, reserves⟩ : ∃ w, borrowed 15000 = .ok w ∧ w.collateralToken = some 8 ∧
      w.protocolCollateralReserves = 0 := by
    decide +kernel
  have reach := (borrowed_reachable (by decide) hw).of_guarded
  obtain ⟨debt, -, -, -, backed⟩ := totals_agree (reach.of_init initial_of_with)
  have covered := backed 8 token
  rw [reserves, add_zero] at covered
  exact ⟨w, hw, debt, covered⟩

/-- Before any interest is charged the supply is the sum of the balances. -/
theorem borrowed_supply : ∃ w, borrowed 15000 = .ok w ∧
    w.totalStableSupply = w.stableBalances.sumBy (fun _ balance => balance) := by
  obtain ⟨w, hw⟩ : ∃ w, borrowed 15000 = .ok w := by decide +kernel
  have reach := (borrowed_reachable (by decide) hw).of_init initial_of_with
  exact ⟨w, hw, (supply_eq_balances_iff reach.of_guarded).2 reach⟩

/-- A year later a repayment of one coin charges the interest first, and the supply is larger than
the sum of the balances. -/
theorem supply_exceeds_balances :
    ∃ w, Reachable (Initial 0) (Step 0) w ∧
      w.totalStableSupply ≠ w.stableBalances.sumBy (fun _ balance => balance) := by
  obtain ⟨w, hw, w', hw', differ⟩ : ∃ w, borrowed 15000 = .ok w ∧
      ∃ w', exec (signedAt (100 + 6307200) priceScale) w (.repay 2 1) = .ok w' ∧
        w'.totalStableSupply ≠ w'.stableBalances.sumBy (fun _ balance => balance) := by
    decide +kernel
  have before := (borrowed_reachable (by decide) hw).of_guarded
  exact ⟨w', (before.of_init initial_of_with).next (step_call hw'), differ⟩

end Cdp
