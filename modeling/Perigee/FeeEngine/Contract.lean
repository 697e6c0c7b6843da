import Perigee.Soroban.Store
import Perigee.Soroban.Tokens
import Perigee.Soroban.Run

/-!
# The fee engine

Performance fees above a high-water mark, management fees by the second and rebates for staked
governance tokens, for any number of vaults.  The file follows `contracts/fee_engine/src/lib.rs`.
-/

namespace FeeEngine

open Soroban

def bpsDenominator : ℤ := 10000

def secondsPerYear : ℤ := 31536000

def maxFeeBps : ℕ := 2000

def maxTiers : ℕ := 8

inductive Error where
  | notInitialized
  | alreadyInitialized
  | unauthorized
  | configNotSet
  | vaultNotFound
  | invalidAmount
  | invalidTier
  | tooManyTiers
  | insufficientStake
  | mathOverflow
  | invalidFeeSplit
  | feeTooHigh
  | reentrancy
  | sponsorNotAllowed
  | historyOutOfBounds
  deriving DecidableEq

/-! ## State -/

structure FeeConfig (Address : Type) where
  managementFeeBps : ℕ
  performanceFeeBps : ℕ
  protocolShareBps : ℕ
  vaultFeeRecipient : Address
  treasury : Address
  deriving DecidableEq

structure VaultState where
  principal : ℤ
  /-- The highest NAV at which a performance fee was crystallized. -/
  highWaterMark : ℤ
  /-- The NAV at the last crystallization. -/
  lastCrystallized : ℤ
  /-- The timestamp of the last management-fee accrual. -/
  lastAccrual : ℕ
  feesPaid : ℤ
  deriving DecidableEq

structure Stake where
  staked : ℤ
  tier : ℕ
  deriving DecidableEq

structure DiscountTier where
  minStake : ℤ
  rebateBps : ℕ
  deriving DecidableEq

structure PerformanceTier where
  minProfit : ℤ
  feeBps : ℕ
  deriving DecidableEq

/-- The `kind` of a fee record: 1, 2 and 3 of the source. -/
inductive FeeKind where
  | management
  | performance
  | combined
  deriving DecidableEq

structure FeeRecord (Address : Type) where
  seq : ℕ
  vault : Address
  payer : Address
  gross : ℤ
  discount : ℤ
  net : ℤ
  vaultShare : ℤ
  protocolShare : ℤ
  timestamp : ℕ
  kind : FeeKind
  deriving DecidableEq

structure FeeBreakdown where
  managementFee : ℤ
  performanceFee : ℤ
  total : ℤ
  discount : ℤ
  netTotal : ℤ
  vaultShare : ℤ
  protocolShare : ℤ
  deriving DecidableEq

structure World (Address : Type) where
  admin : Option Address := none
  config : Option (FeeConfig Address) := none
  stakingToken : Option Address := none
  discountTiers : List DiscountTier := []
  perfTiers : List PerformanceTier := []
  vaults : Store Address VaultState := ∅
  stakes : Store Address Stake := ∅
  reentrancyLock : Bool := false
  feeSeq : ℕ := 0
  feeHistory : Store ℕ (FeeRecord Address) := ∅
  sponsors : Store Address Address := ∅
  tokens : Tokens Address

structure LedgerEnv {Address : Type} (engine : Address) extends Env engine where
  timestamp : ℕ

/-! ## Helpers -/

def defaultVaultState : VaultState :=
  { principal := 0, highWaterMark := 0, lastCrystallized := 0, lastAccrual := 0, feesPaid := 0 }

def defaultStake : Stake := { staked := 0, tier := 0 }

def checkedAdd (a b : ℤ) : Outcome Error ℤ := checkedI128 (a + b) .mathOverflow

/-- `amount * bps / 10 000`, as every fee, clawback, discount and share is computed. -/
def applyBps (amount : ℤ) (bps : ℕ) : Outcome Error ℤ := do
  let product ← checkedI128 (amount * bps) .mathOverflow
  divI128 product bpsDenominator

def tierForStake (tiers : List DiscountTier) (staked : ℤ) : ℕ :=
  tiers.zipIdx.foldl (fun tier t => if t.1.minStake ≤ staked then t.2 + 1 else tier) 0

def rebateForStake (tiers : List DiscountTier) (staked : ℤ) : Outcome Error ℕ :=
  let tier := tierForStake tiers staked
  if tier = 0 then pure 0
  else DiscountTier.rebateBps <$> (unwrap tiers[tier - 1]? : Outcome Error _)

/-- The performance-fee rate for a profit, if a tier matches. -/
def perfRateForProfit (tiers : List PerformanceTier) (profit : ℤ) : Option ℕ :=
  tiers.foldl (fun rate t => if t.minProfit ≤ profit then some t.feeBps else rate) none

def checkTiers {T : Type} (rate : T → ℕ) (least : T → ℤ) (cap : ℕ) (tooHigh : Error) :
    Option T → List T → Outcome Error Unit
  | _, [] => pure ()
  | previous, tier :: rest => do
    reject (cap < rate tier) tooHigh
    reject (∃ p ∈ previous, least tier ≤ least p) .invalidTier
    checkTiers rate least cap tooHigh (some tier) rest

/-- The check of a tier list: between 1 and `MAX_TIERS` tiers that pass `checkTiers`. -/
def validateTiers {T : Type} (rate : T → ℕ) (least : T → ℤ) (cap : ℕ) (tooHigh : Error)
    (tiers : List T) : Outcome Error Unit := do
  reject (tiers.length = 0 ∨ maxTiers < tiers.length) .tooManyTiers
  checkTiers rate least cap tooHigh none tiers

def validateDiscountTiers : List DiscountTier → Outcome Error Unit :=
  validateTiers DiscountTier.rebateBps DiscountTier.minStake 10000 .invalidTier

def validatePerfTiers : List PerformanceTier → Outcome Error Unit :=
  validateTiers PerformanceTier.feeBps PerformanceTier.minProfit maxFeeBps .feeTooHigh

def splitFee (fee : ℤ) (protocolShareBps : ℕ) : Outcome Error (ℤ × ℤ) := do
  reject (10000 < protocolShareBps) .invalidFeeSplit
  let protocol ← applyBps fee protocolShareBps
  let vault ← checkedI128 (fee - protocol) .mathOverflow
  pure (vault, protocol)

def managementFee (managementFeeBps : ℕ) (aum : ℤ) (elapsed : ℕ) : Outcome Error ℤ :=
  if elapsed = 0 ∨ aum ≤ 0 then pure 0
  else do
    let yearly ← checkedI128 (aum * managementFeeBps) .mathOverflow
    let product ← checkedI128 (yearly * elapsed) .mathOverflow
    divI128 product (bpsDenominator * secondsPerYear)

section Contract

variable {Address : Type} [DecidableEq Address] {engine : Address} (env : LedgerEnv engine)

def requireAdmin (admin : Address) (w : World Address) : Outcome Error Unit := do
  let stored ← okOr w.admin .notInitialized
  reject (admin ≠ stored) .unauthorized
  requireAuth env.toEnv admin

variable (w : World Address)

def loadConfig : Outcome Error (FeeConfig Address) :=
  okOr w.config .configNotSet

def loadVault (vault : Address) : Outcome Error VaultState :=
  okOr (w.vaults.lookup vault) .vaultNotFound

def loadVaultOrDefault (vault : Address) : VaultState :=
  w.vaults.getD vault defaultVaultState

def saveVault (vault : Address) (state : VaultState) : World Address :=
  { w with vaults := w.vaults.set vault state }

def loadStakeOrDefault (staker : Address) : Stake :=
  w.stakes.getD staker defaultStake

def saveStake (staker : Address) (stake : Stake) : World Address :=
  { w with stakes := w.stakes.set staker stake }

def loadStakingToken : Outcome Error Address :=
  okOr w.stakingToken .notInitialized

/-! ## Setup and configuration -/

def initializeEngine (admin stakingToken : Address) (w : World Address) :
    Outcome Error (World Address) := do
  reject (w.admin.isSome = true) .alreadyInitialized
  requireAuth env.toEnv admin
  pure { w with admin := some admin, stakingToken := some stakingToken }

def setFeeConfig (admin : Address) (config : FeeConfig Address)
    (w : World Address) : Outcome Error (World Address) := do
  requireAdmin env admin w
  reject (maxFeeBps < config.managementFeeBps ∨ maxFeeBps < config.performanceFeeBps) .feeTooHigh
  reject (10000 < config.protocolShareBps) .invalidFeeSplit
  pure { w with config := some config }

def setDiscountTiers (admin : Address) (tiers : List DiscountTier)
    (w : World Address) : Outcome Error (World Address) := do
  requireAdmin env admin w
  validateDiscountTiers tiers
  pure { w with discountTiers := tiers }

def setPerfTiers (admin : Address) (tiers : List PerformanceTier)
    (w : World Address) : Outcome Error (World Address) := do
  requireAdmin env admin w
  validatePerfTiers tiers
  pure { w with perfTiers := tiers }

/-! ## Governance staking -/

def stake (staker : Address) (amount : ℤ) (w : World Address) : Outcome Error (World Address) := do
  requireAuth env.toEnv staker
  reject (amount ≤ 0) .invalidAmount
  let token ← loadStakingToken w
  let tokens ← w.tokens.transfer token staker engine amount
  let old := loadStakeOrDefault w staker
  let staked ← checkedAdd old.staked amount
  pure { saveStake w staker { staked, tier := tierForStake w.discountTiers staked } with tokens }

def unstake (staker : Address) (amount : ℤ) (w : World Address) :
    Outcome Error (World Address) := do
  requireAuth env.toEnv staker
  reject (amount ≤ 0) .invalidAmount
  let old := loadStakeOrDefault w staker
  reject (old.staked < amount) .insufficientStake
  let token ← loadStakingToken w
  let tokens ← w.tokens.transfer token engine staker amount
  let staked ← i128 (old.staked - amount)
  pure { saveStake w staker { staked, tier := tierForStake w.discountTiers staked } with tokens }

/-! ## Flows of a vault -/

/-- Record a deposit.  A principal above the high-water mark raises the mark; the time since the
last accrual is dropped. -/
def recordDeposit (vault : Address) (amount : ℤ) (w : World Address) :
    Outcome Error (World Address) := do
  requireAuth env.toEnv vault
  reject (amount ≤ 0) .invalidAmount
  let state := loadVaultOrDefault w vault
  let principal ← checkedAdd state.principal amount
  let raised := if state.highWaterMark < principal
    then { state with principal, highWaterMark := principal, lastCrystallized := principal }
    else { state with principal }
  pure (saveVault w vault { raised with lastAccrual := env.timestamp })

def recordWithdrawal (vault : Address) (amount : ℤ) (w : World Address) :
    Outcome Error (World Address) := do
  requireAuth env.toEnv vault
  reject (amount ≤ 0) .invalidAmount
  let state := loadVaultOrDefault w vault
  reject (state.principal < amount) .invalidAmount
  let principal ← i128 (state.principal - amount)
  pure (saveVault w vault { state with principal })

/-! ## Fee records -/

def nextFeeSeq : ℕ := min (w.feeSeq + 1) (2 ^ 64 - 1)

def recordFeeEvent (vault payer : Address)
    (gross discount net vaultShare protocolShare : ℤ) (kind : FeeKind) (w : World Address) :
    World Address :=
  let seq := nextFeeSeq w
  let record : FeeRecord Address :=
    { seq, vault, payer, gross, discount, net, vaultShare, protocolShare
      timestamp := env.timestamp, kind }
  { w with feeSeq := seq, feeHistory := w.feeHistory.set seq record }

/-- Record a fee without discount, if there is one to record. -/
def recordFee (vault : Address) (fee : ℤ) (protocolShareBps : ℕ)
    (kind : FeeKind) (w : World Address) : Outcome Error (World Address) :=
  if 0 < fee then do
    let (vaultShare, protocolShare) ← splitFee fee protocolShareBps
    pure (recordFeeEvent env vault vault fee 0 fee vaultShare protocolShare kind w)
  else pure w

/-! ## Reentrancy -/

def reentrancyEnter : Outcome Error (World Address) := do
  reject (w.reentrancyLock = true) .reentrancy
  pure { w with reentrancyLock := true }

def reentrancyExit : World Address := { w with reentrancyLock := false }

/-! ## Fees -/

/-- Charge the management fee for the time since the last accrual. -/
def accrueManagementFee (vault : Address) (aum : ℤ) (w : World Address) :
    Outcome Error (ℤ × World Address) := do
  let w ← reentrancyEnter w
  let config ← loadConfig w
  let state ← loadVault w vault
  let elapsed := env.timestamp - state.lastAccrual
  let fee ← managementFee config.managementFeeBps aum elapsed
  let feesPaid ← checkedAdd state.feesPaid fee
  let w := saveVault w vault { state with lastAccrual := env.timestamp, feesPaid }
  let w ← recordFee env vault fee config.protocolShareBps .management w
  pure (fee, reentrancyExit w)

/-- The rate for a profit or a loss: that of its tier, or the configured one. -/
def rateFor (config : FeeConfig Address) (size : ℤ) : ℕ :=
  (perfRateForProfit w.perfTiers size).getD config.performanceFeeBps

/-- The body of `crystallize`: a fee on the profit above the mark, or a clawback of the fee on the
loss since the last crystallization. -/
def crystallizeAt (vault : Address) (nav : ℤ) (config : FeeConfig Address)
    (state : VaultState) (w : World Address) : Outcome Error (ℤ × World Address) :=
  if state.highWaterMark < nav then do
    let profit ← i128 (nav - state.highWaterMark)
    let fee ← applyBps profit (rateFor w config profit)
    let feesPaid ← checkedAdd state.feesPaid fee
    let w := saveVault w vault
      { state with highWaterMark := nav, lastCrystallized := nav, feesPaid }
    let w ← recordFee env vault fee config.protocolShareBps .performance w
    pure (fee, w)
  else if nav < state.lastCrystallized then do
    let loss ← i128 (state.lastCrystallized - nav)
    let clawback ← applyBps loss (rateFor w config loss)
    let feesPaid := saturateI128 (state.feesPaid - clawback)
    pure (0, saveVault w vault { state with lastCrystallized := nav, feesPaid })
  else pure (0, w)

def crystallize (vault : Address) (nav : ℤ) (w : World Address) :
    Outcome Error (ℤ × World Address) := do
  let w ← reentrancyEnter w
  let config ← loadConfig w
  let state ← loadVault w vault
  let (fee, w) ← crystallizeAt env vault nav config state w
  pure (fee, reentrancyExit w)

/-- Charge both fees, and report them less the rebate. -/
def computeFees (vault : Address) (nav : ℤ) (w : World Address) :
    Outcome Error (FeeBreakdown × World Address) := do
  let (managementFee, w) ← accrueManagementFee env vault nav w
  let (performanceFee, w) ← crystallize env vault nav w
  let config ← loadConfig w
  let total ← checkedAdd managementFee performanceFee
  let rebate ← rebateForStake w.discountTiers (loadStakeOrDefault w vault).staked
  let discount ← applyBps total rebate
  let netTotal ← checkedI128 (total - discount) .mathOverflow
  let (vaultShare, protocolShare) ← splitFee netTotal config.protocolShareBps
  pure ({ managementFee, performanceFee, total, discount, netTotal, vaultShare, protocolShare }, w)

def requirePayerOrSponsor (user payer : Address) (w : World Address) : Outcome Error Unit := do
  requireAuth env.toEnv payer
  reject (payer ≠ user ∧ w.sponsors.lookup user ≠ some payer) .sponsorNotAllowed

/-- Charge both fees on behalf of a vault, and record the net charge once more under the payer. -/
def computeFeesSponsored (vault payer : Address) (nav : ℤ)
    (w : World Address) : Outcome Error (FeeBreakdown × World Address) := do
  requirePayerOrSponsor env vault payer w
  let (b, w) ← computeFees env vault nav w
  pure (b, if 0 < b.netTotal
    then recordFeeEvent env vault payer b.total b.discount b.netTotal b.vaultShare b.protocolShare
      .combined w
    else w)

def setFeeSponsor (user sponsor : Address) (allowed : Bool)
    (w : World Address) : Outcome Error (World Address) := do
  requireAuth env.toEnv user
  pure { w with
    sponsors := if allowed then w.sponsors.set user sponsor else w.sponsors.remove user }

/-! ## The system -/

inductive Call (Address : Type) where
  | setFeeConfig (admin : Address) (config : FeeConfig Address)
  | setDiscountTiers (admin : Address) (tiers : List DiscountTier)
  | setPerfTiers (admin : Address) (tiers : List PerformanceTier)
  | stake (staker : Address) (amount : ℤ)
  | unstake (staker : Address) (amount : ℤ)
  | recordDeposit (vault : Address) (amount : ℤ)
  | recordWithdrawal (vault : Address) (amount : ℤ)
  | accrueManagementFee (vault : Address) (aum : ℤ)
  | crystallize (vault : Address) (nav : ℤ)
  | computeFees (vault : Address) (nav : ℤ)
  | computeFeesSponsored (vault payer : Address) (nav : ℤ)
  | setFeeSponsor (user sponsor : Address) (allowed : Bool)

/-- Run a call.  The first component is the net fee that it reports as charged. -/
def exec (w : World Address) :
    Call Address → Outcome Error (ℤ × World Address)
  | .setFeeConfig admin config => (0, ·) <$> setFeeConfig env admin config w
  | .setDiscountTiers admin tiers => (0, ·) <$> setDiscountTiers env admin tiers w
  | .setPerfTiers admin tiers => (0, ·) <$> setPerfTiers env admin tiers w
  | .stake staker amount => (0, ·) <$> stake env staker amount w
  | .unstake staker amount => (0, ·) <$> unstake env staker amount w
  | .recordDeposit vault amount => (0, ·) <$> recordDeposit env vault amount w
  | .recordWithdrawal vault amount => (0, ·) <$> recordWithdrawal env vault amount w
  | .accrueManagementFee vault aum => accrueManagementFee env vault aum w
  | .crystallize vault nav => crystallize env vault nav w
  | .computeFees vault nav => (fun r => (r.1.netTotal, r.2)) <$> computeFees env vault nav w
  | .computeFeesSponsored vault payer nav =>
      (fun r => (r.1.netTotal, r.2)) <$> computeFeesSponsored env vault payer nav w
  | .setFeeSponsor user sponsor allowed => (0, ·) <$> setFeeSponsor env user sponsor allowed w

structure Action (engine : Address) where
  env : LedgerEnv engine
  call : Call Address
  reported : ℤ

def Step (engine : Address) (w : World Address) (action : Action engine) (w' : World Address) :
    Prop :=
  exec action.env w action.call = .ok (action.reported, w')

def Initial (engine : Address) (w : World Address) : Prop :=
  ∃ (env : LedgerEnv engine) (admin stakingToken : Address) (tokens : Tokens Address),
    initializeEngine env admin stakingToken { tokens } = .ok w

end Contract

end FeeEngine
