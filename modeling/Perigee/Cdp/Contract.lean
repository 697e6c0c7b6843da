import Perigee.Soroban.Store
import Perigee.Soroban.Tokens
import Perigee.Soroban.Run

/-!
# The collateralized debt contract

A user locks collateral and mints a stable coin against it.  Debts grow by interest, which is
accrued when a position is next touched; a position whose collateral ratio has fallen too low is
liquidated.  The file follows `contracts/cdp/src/lib.rs`.
-/

namespace Cdp

open Soroban

def bps : ℤ := 10000

def priceScale : ℤ := 10000000

def ledgersPerYear : ℤ := 6307200

inductive Error where
  | alreadyInitialized
  | notInitialized
  | invalidAmount
  | invalidConfig
  | positionNotFound
  | positionHealthy
  | undercollateralized
  | insufficientCollateral
  | insufficientStableBalance
  | oracleNotConfigured
  | invalidOraclePrice
  | liquidationUnavailable
  | mathOverflow
  deriving DecidableEq

structure Position where
  collateralAmount : ℤ
  debtAmount : ℤ
  lastAccrualLedger : ℕ
  deriving DecidableEq

structure RiskParams where
  minCollateralRatioBps : ℤ
  liquidationIncentiveBps : ℤ
  deriving DecidableEq

structure InterestRateModel where
  baseRateBps : ℤ
  slope1Bps : ℤ
  slope2Bps : ℤ
  optimalUtilizationBps : ℤ
  deriving DecidableEq

structure LiquidationQuote where
  repayAmount : ℤ
  collateralToSeize : ℤ
  incentiveAmount : ℤ
  deriving DecidableEq

/-- The storage of the contract and the balances of all tokens.  Keys that the contract reads with
`unwrap_or` are plain fields holding the default until they are written. -/
structure World (Address : Type) where
  admin : Option Address := none
  collateralToken : Option Address := none
  oracle : Option Address := none
  totalCollateral : ℤ := 0
  totalDebt : ℤ := 0
  totalStableSupply : ℤ := 0
  protocolCollateralReserves : ℤ := 0
  totalBadDebt : ℤ := 0
  riskParams : Option RiskParams := none
  interestRateModel : Option InterestRateModel := none
  positions : Store Address Position := ∅
  stableBalances : Store Address ℤ := ∅
  tokens : Tokens Address

structure OracleEnv {Address : Type} (cdp : Address) extends Env cdp where
  latestPrice : Address → ℤ

/-! ## Math -/

def checkedAdd (a b : ℤ) : Outcome Error ℤ := checkedI128 (a + b) .mathOverflow

def checkedSub (a b : ℤ) : Outcome Error ℤ := checkedI128 (a - b) .mathOverflow

def checkedMul (a b : ℤ) : Outcome Error ℤ := checkedI128 (a * b) .mathOverflow

def collateralValue (price collateralAmount : ℤ) : Outcome Error ℤ := do
  let product ← checkedMul collateralAmount price
  divI128 product priceScale

/-- The collateral ratio; without a debt it is `i128::MAX`. -/
def collateralRatioBps (price collateralAmount debtAmount : ℤ) : Outcome Error ℤ :=
  if debtAmount ≤ 0 then pure (2 ^ 127 - 1)
  else do
    let value ← collateralValue price collateralAmount
    let scaled ← checkedMul value bps
    divI128 scaled debtAmount

/-- The yearly rate: one slope up to the optimal utilization, another one above it. -/
def borrowRateBps (model : InterestRateModel) (utilization : ℤ) : Outcome Error ℤ :=
  if utilization ≤ model.optimalUtilizationBps then do
    let scaled ← checkedMul utilization model.slope1Bps
    let sloped ← divI128 scaled model.optimalUtilizationBps
    checkedAdd model.baseRateBps sloped
  else do
    let base ← checkedAdd model.baseRateBps model.slope1Bps
    let excessUtil ← i128 (utilization - model.optimalUtilizationBps)
    let scaled ← checkedMul excessUtil model.slope2Bps
    let range ← i128 (bps - model.optimalUtilizationBps)
    let tail ← divI128 scaled range
    checkedAdd base tail

def uncovered (debtAmount repayCoverable : ℤ) : Outcome Error ℤ :=
  if repayCoverable < debtAmount then i128 (debtAmount - repayCoverable) else pure 0

section Contract

variable {Address : Type} [DecidableEq Address] {cdp : Address}

/-! ## Storage helpers -/

def requireAdmin (env : Env cdp) (w : World Address) : Outcome Error Address := do
  let admin ← okOr w.admin .notInitialized
  requireAuth env admin
  pure admin

variable (w : World Address)

def readRiskParams : Outcome Error RiskParams :=
  okOr w.riskParams .notInitialized

def readInterestModel : Outcome Error InterestRateModel :=
  okOr w.interestRateModel .notInitialized

/-- A missing position is empty, and accrued up to the current ledger. -/
def readPosition (env : Env cdp) (w : World Address) (user : Address) : Position :=
  w.positions.getD user ⟨0, 0, env.sequence⟩

def writePosition (user : Address) (position : Position) : World Address :=
  { w with positions := w.positions.set user position }

def readStableBalance (user : Address) : ℤ := w.stableBalances.getD user 0

def writeStableBalance (user : Address) (amount : ℤ) : World Address :=
  { w with stableBalances := w.stableBalances.set user amount }

variable (env : OracleEnv cdp)

def oraclePrice (w : World Address) : Outcome Error ℤ := do
  let oracle ← okOr w.oracle .oracleNotConfigured
  let price := env.latestPrice oracle
  reject (price ≤ 0) .invalidOraclePrice
  pure price

def utilizationBps (price : ℤ) : Outcome Error ℤ := do
  let collateralValueTotal ← collateralValue price w.totalCollateral
  if collateralValueTotal ≤ 0 then pure 0
  else do
    let scaled ← checkedMul w.totalDebt bps
    let util ← divI128 scaled collateralValueTotal
    pure (if bps < util then bps else util)

/-- Charge a user the interest since the last accrual.  The debt, the total debt and the supply of
the coin all grow by it. -/
def accruePosition (user : Address) (w : World Address) :
    Outcome Error (Position × World Address) :=
  let position := readPosition env.toEnv w user
  let now := env.sequence
  if position.debtAmount ≤ 0 ∨ now ≤ position.lastAccrualLedger then
    let position := { position with lastAccrualLedger := now }
    pure (position, writePosition w user position)
  else do
    let elapsed : ℤ := (now - position.lastAccrualLedger : ℕ)
    let model ← readInterestModel w
    let price ← oraclePrice env w
    let utilization ← utilizationBps w price
    let rateBps ← borrowRateBps model utilization
    let yearly ← checkedMul position.debtAmount rateBps
    let scaled ← checkedMul yearly elapsed
    let perYear ← divI128 scaled bps
    let interest ← divI128 perYear ledgersPerYear
    if 0 < interest then do
      let debtAmount ← checkedAdd position.debtAmount interest
      let newTotalDebt ← checkedAdd w.totalDebt interest
      let newSupply ← checkedAdd w.totalStableSupply interest
      let position := { position with debtAmount, lastAccrualLedger := now }
      pure (position, writePosition
        { w with totalDebt := newTotalDebt, totalStableSupply := newSupply } user position)
    else
      let position := { position with lastAccrualLedger := now }
      pure (position, writePosition w user position)

def ensureSafe (w : World Address) (position : Position) : Outcome Error Unit := do
  let price ← oraclePrice env w
  let params ← readRiskParams w
  let ratio ← collateralRatioBps price position.collateralAmount position.debtAmount
  reject (ratio < params.minCollateralRatioBps) .undercollateralized

/-! ## Entry points -/

/-- The source's `initialize`; the model of interest rates is checked only for its kink. -/
def initializeCdp (admin collateralToken oracle : Address) (minCollateralRatioBps
    liquidationIncentiveBps baseRateBps slope1Bps slope2Bps optimalUtilizationBps : ℤ)
    (w : World Address) : Outcome Error (World Address) := do
  reject (w.admin.isSome = true) .alreadyInitialized
  reject (minCollateralRatioBps ≤ bps ∨ liquidationIncentiveBps < 0 ∨ optimalUtilizationBps ≤ 0 ∨
    bps ≤ optimalUtilizationBps) .invalidConfig
  pure { w with
    admin := some admin
    collateralToken := some collateralToken
    oracle := some oracle
    riskParams := some { minCollateralRatioBps, liquidationIncentiveBps }
    interestRateModel := some { baseRateBps, slope1Bps, slope2Bps, optimalUtilizationBps }
    totalCollateral := 0
    totalDebt := 0
    totalStableSupply := 0
    protocolCollateralReserves := 0
    totalBadDebt := 0 }

def setOracle (env : Env cdp) (oracle : Address) (w : World Address) :
    Outcome Error (World Address) := do
  let _ ← requireAdmin env w
  pure { w with oracle := some oracle }

def depositCollateral (user : Address) (amount : ℤ) (w : World Address) :
    Outcome Error (Position × World Address) := do
  requireAuth env.toEnv user
  reject (amount ≤ 0) .invalidAmount
  let collateralToken ← okOr w.collateralToken .notInitialized
  let (position, w) ← accruePosition env user w
  let tokens ← w.tokens.transfer collateralToken user cdp amount
  let collateralAmount ← checkedAdd position.collateralAmount amount
  let position := { position with collateralAmount }
  let totalCollateral ← checkedAdd w.totalCollateral amount
  pure (position, { writePosition w user position with tokens, totalCollateral })

def withdrawCollateral (user : Address) (amount : ℤ) (w : World Address) :
    Outcome Error (Position × World Address) := do
  requireAuth env.toEnv user
  reject (amount ≤ 0) .invalidAmount
  let collateralToken ← okOr w.collateralToken .notInitialized
  let (position, w) ← accruePosition env user w
  reject (position.collateralAmount < amount) .insufficientCollateral
  let collateralAmount ← checkedSub position.collateralAmount amount
  let position := { position with collateralAmount }
  ensureSafe env w position
  let totalCollateral ← checkedSub w.totalCollateral amount
  let tokens ← w.tokens.transfer collateralToken cdp user amount
  pure (position, { writePosition w user position with tokens, totalCollateral })

def mintStable (user : Address) (amount : ℤ) (w : World Address) :
    Outcome Error (Position × World Address) := do
  requireAuth env.toEnv user
  reject (amount ≤ 0) .invalidAmount
  let (position, w) ← accruePosition env user w
  let debtAmount ← checkedAdd position.debtAmount amount
  let position := { position with debtAmount }
  ensureSafe env w position
  let newBalance ← checkedAdd (readStableBalance w user) amount
  let totalDebt ← checkedAdd w.totalDebt amount
  let totalStableSupply ← checkedAdd w.totalStableSupply amount
  pure (position, { writePosition (writeStableBalance w user newBalance) user position with
    totalDebt, totalStableSupply })

/-- Repay as much of `amount` as the user holds and owes. -/
def repay (user : Address) (amount : ℤ) (w : World Address) :
    Outcome Error (Position × World Address) := do
  requireAuth env.toEnv user
  reject (amount ≤ 0) .invalidAmount
  let (position, w) ← accruePosition env user w
  let balance := readStableBalance w user
  reject (balance ≤ 0) .insufficientStableBalance
  let repayAmount := if balance < amount then balance else amount
  let repayAmount := if position.debtAmount < repayAmount then position.debtAmount else repayAmount
  reject (repayAmount ≤ 0) .invalidAmount
  let debtAmount ← checkedSub position.debtAmount repayAmount
  let position := { position with debtAmount }
  let newBalance ← checkedSub balance repayAmount
  let totalDebt ← checkedSub w.totalDebt repayAmount
  let totalStableSupply ← checkedSub w.totalStableSupply repayAmount
  pure (position, { writePosition (writeStableBalance w user newBalance) user position with
    totalDebt, totalStableSupply })

def transferStable (env : Env cdp) (src dst : Address) (amount : ℤ) (w : World Address) :
    Outcome Error (World Address) := do
  requireAuth env src
  reject (amount ≤ 0) .invalidAmount
  let fromBalance := readStableBalance w src
  reject (fromBalance < amount) .insufficientStableBalance
  let left ← checkedSub fromBalance amount
  let w := writeStableBalance w src left
  -- The balance of the receiver is read after the sender's is written.
  let received ← checkedAdd (readStableBalance w dst) amount
  pure (writeStableBalance w dst received)

/-- The terms of a liquidation.  The repayment is capped by the debt and by what the collateral can
cover with the incentive. -/
def quoteLiquidation (borrower : Address) (requestedRepayAmount : ℤ)
    (w : World Address) : Outcome Error (LiquidationQuote × World Address) := do
  reject (requestedRepayAmount ≤ 0) .invalidAmount
  let (position, w) ← accruePosition env borrower w
  let params ← readRiskParams w
  let price ← oraclePrice env w
  let ratio ← collateralRatioBps price position.collateralAmount position.debtAmount
  reject (params.minCollateralRatioBps ≤ ratio) .positionHealthy
  let collateralValueTotal ← collateralValue price position.collateralAmount
  let scaled ← checkedMul collateralValueTotal bps
  let withIncentive ← i128 (bps + params.liquidationIncentiveBps)
  let maxCoverableRepay ← divI128 scaled withIncentive
  let repayAmount := min (min requestedRepayAmount position.debtAmount) maxCoverableRepay
  reject (repayAmount ≤ 0) .liquidationUnavailable
  let scaled ← checkedMul repayAmount withIncentive
  let seizeValue ← divI128 scaled bps
  let scaled ← checkedMul seizeValue priceScale
  let collateralToSeize ← divI128 scaled price
  let collateralToSeize :=
    if position.collateralAmount < collateralToSeize then position.collateralAmount
    else collateralToSeize
  let incentiveAmount ← checkedSub seizeValue repayAmount
  pure ({ repayAmount, collateralToSeize, incentiveAmount }, w)

def liquidate (liquidator borrower : Address) (requestedRepayAmount : ℤ)
    (w : World Address) : Outcome Error (LiquidationQuote × World Address) := do
  requireAuth env.toEnv liquidator
  let (quote, w) ← quoteLiquidation env borrower requestedRepayAmount w
  let liquidatorBalance := readStableBalance w liquidator
  reject (liquidatorBalance < quote.repayAmount) .insufficientStableBalance
  let collateralToken ← okOr w.collateralToken .notInitialized
  let position := readPosition env.toEnv w borrower
  let debtAmount ← checkedSub position.debtAmount quote.repayAmount
  let collateralAmount ← checkedSub position.collateralAmount quote.collateralToSeize
  let newBalance ← checkedSub liquidatorBalance quote.repayAmount
  let totalDebt ← checkedSub w.totalDebt quote.repayAmount
  let totalStableSupply ← checkedSub w.totalStableSupply quote.repayAmount
  let totalCollateral ← checkedSub w.totalCollateral quote.collateralToSeize
  let tokens ← w.tokens.transfer collateralToken cdp liquidator quote.collateralToSeize
  pure (quote, { writePosition (writeStableBalance w liquidator newBalance) borrower
      { position with debtAmount, collateralAmount } with
    totalDebt, totalStableSupply, totalCollateral, tokens })

/-- Close an unsafe position: the protocol takes all of its collateral, and the part of the debt
that the collateral does not cover becomes bad debt.  Nobody needs to authorize the call. -/
def selfLiquidate (borrower : Address) (w : World Address) :
    Outcome Error (Position × World Address) := do
  let (position, w) ← accruePosition env borrower w
  let params ← readRiskParams w
  let price ← oraclePrice env w
  let ratio ← collateralRatioBps price position.collateralAmount position.debtAmount
  reject (params.minCollateralRatioBps ≤ ratio) .positionHealthy
  let collateralValueTotal ← collateralValue price position.collateralAmount
  let scaled ← checkedMul collateralValueTotal bps
  let withIncentive ← i128 (bps + params.liquidationIncentiveBps)
  let repayCoverable ← divI128 scaled withIncentive
  let badDebt ← uncovered position.debtAmount repayCoverable
  let debtRepaid ← i128 (position.debtAmount - badDebt)
  let seizedCollateral := position.collateralAmount
  let protocolCollateralReserves ← checkedAdd w.protocolCollateralReserves seizedCollateral
  let totalBadDebt ← checkedAdd w.totalBadDebt badDebt
  let totalDebt ← checkedSub w.totalDebt debtRepaid
  let totalCollateral ← checkedSub w.totalCollateral seizedCollateral
  let position := ⟨0, 0, env.sequence⟩
  pure (position, { writePosition w borrower position with
    protocolCollateralReserves, totalBadDebt, totalDebt, totalCollateral })

/-! ## The system -/

inductive Call (Address : Type) where
  | setOracle (oracle : Address)
  | depositCollateral (user : Address) (amount : ℤ)
  | withdrawCollateral (user : Address) (amount : ℤ)
  | mintStable (user : Address) (amount : ℤ)
  | repay (user : Address) (amount : ℤ)
  | transferStable (src dst : Address) (amount : ℤ)
  | quoteLiquidation (borrower : Address) (requestedRepayAmount : ℤ)
  | liquidate (liquidator borrower : Address) (requestedRepayAmount : ℤ)
  | selfLiquidate (borrower : Address)

def exec (w : World Address) : Call Address → Outcome Error (World Address)
  | .setOracle oracle => setOracle env.toEnv oracle w
  | .depositCollateral user amount => Prod.snd <$> depositCollateral env user amount w
  | .withdrawCollateral user amount => Prod.snd <$> withdrawCollateral env user amount w
  | .mintStable user amount => Prod.snd <$> mintStable env user amount w
  | .repay user amount => Prod.snd <$> repay env user amount w
  | .transferStable src dst amount => transferStable env.toEnv src dst amount w
  | .quoteLiquidation borrower requested => Prod.snd <$> quoteLiquidation env borrower requested w
  | .liquidate liquidator borrower requested =>
      Prod.snd <$> liquidate env liquidator borrower requested w
  | .selfLiquidate borrower => Prod.snd <$> selfLiquidate env borrower w

inductive Action (cdp : Address) where
  | call (env : OracleEnv cdp) (c : Call Address)
  | external (tokens : Tokens Address)

/-- One step of the system.  Tokens leave the contract only in its own calls; the ledger number and
the oracle prices of a call are arbitrary. -/
def Step (cdp : Address) (w : World Address) (action : Action cdp) (w' : World Address) : Prop :=
  match action with
  | .call env c => exec env w c = .ok w'
  | .external tokens =>
      (∀ token, w.tokens token cdp ≤ tokens token cdp) ∧ w' = { w with tokens }

def InitialWith (cdp : Address) (params : RiskParams) (w : World Address) : Prop :=
  ∃ (admin collateralToken oracle : Address)
    (baseRateBps slope1Bps slope2Bps optimalUtilizationBps : ℤ) (tokens : Tokens Address),
    (∀ token, 0 ≤ tokens token cdp) ∧ IsI128 params.minCollateralRatioBps ∧
      initializeCdp admin collateralToken oracle params.minCollateralRatioBps
        params.liquidationIncentiveBps baseRateBps slope1Bps slope2Bps optimalUtilizationBps
        { tokens } = .ok w

def Initial (cdp : Address) (w : World Address) : Prop := ∃ params, InitialWith cdp params w

end Contract

end Cdp
