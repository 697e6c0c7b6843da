import Perigee.Soroban.Store
import Perigee.Soroban.Tokens
import Perigee.Soroban.Run

/-!
# The vault insurance contract

A registry of insurance policies for vaults: coverage is written against a reserve, premiums accrue
per epoch and are collected on withdrawal, and claims are paid out of the reserve.  The file follows
`contracts/vault_insurance/src/lib.rs`.  The contract keeps accounts only; it holds no tokens.
-/

namespace VaultInsurance

open Soroban

def bpsDenominator : ℤ := 10000

def epochLedgers : ℕ := 17280

inductive Error where
  | notInitialized
  | alreadyInitialized
  | unauthorized
  | noPolicy
  | policyExists
  | zeroAmount
  | insuredValueTooLow
  | coverageExceedsReserve
  | coverageAboveCap
  | premiumRateTooHigh
  | claimAlreadyOpen
  | noOpenClaim
  | triggerNotCovered
  | settlementTooLarge
  | premiumAlreadyCollected
  | mathOverflow
  deriving DecidableEq

inductive Provider where
  | nexusMutual
  | insurAce
  | selfFunded
  deriving DecidableEq

inductive Trigger where
  | strategyLoss
  | oracleDeviation
  | contractFailure
  | liquidationCascade
  deriving DecidableEq

structure Policy (Address : Type) where
  vault : Address
  policyholder : Address
  provider : Provider
  coverage : ℤ
  insuredValue : ℤ
  premiumRateBps : ℕ
  accruedPremium : ℤ
  lastPremiumLedger : ℕ
  triggers : List Trigger
  active : Bool
  deriving DecidableEq

structure Claim (Address : Type) where
  vault : Address
  claimant : Address
  trigger : Trigger
  amount : ℤ
  openedLedger : ℕ
  settled : Bool
  deriving DecidableEq

structure Reserve where
  premiumsIn : ℤ
  payoutsOut : ℤ
  unclaimedPremium : ℤ
  outstandingCoverage : ℤ
  deriving DecidableEq

structure World (Address : Type) where
  admin : Option Address := none
  premiumRecipient : Option Address := none
  reserve : Option Reserve := none
  epochOrigin : Option ℕ := none
  policies : Store Address (Policy Address) := ∅
  claims : Store Address (Claim Address) := ∅

def applyBps (amount : ℤ) (bps : ℕ) : Outcome Error ℤ := do
  let product ← checkedI128 (amount * bps) .mathOverflow
  divI128 product bpsDenominator

/-- The coverage outstanding after a withdrawal: the policy's is released when nothing is left. -/
def released (net coverage outstandingCoverage : ℤ) : Outcome Error ℤ :=
  if net = 0 then checkedI128 (outstandingCoverage - coverage) .mathOverflow
  else pure outstandingCoverage

section Contract

variable {Address : Type} [DecidableEq Address] {registry : Address}

/-! ## Storage helpers -/

variable (env : Env registry)

def requireAdmin (caller : Address) (w : World Address) : Outcome Error Unit := do
  let admin ← okOr w.admin .notInitialized
  reject (caller ≠ admin) .unauthorized
  requireAuth env caller

def loadPolicy (w : World Address) (vault : Address) : Outcome Error (Policy Address) :=
  okOr (w.policies.lookup vault) .noPolicy

def loadReserve (w : World Address) : Outcome Error Reserve := okOr w.reserve .notInitialized

def savePolicy (w : World Address) (vault : Address) (policy : Policy Address) : World Address :=
  { w with policies := w.policies.set vault policy }

/-! ## Entry points -/

def initializeRegistry (admin premiumRecipient : Address) (w : World Address) :
    Outcome Error (World Address) := do
  reject (w.admin.isSome = true) .alreadyInitialized
  requireAuth env admin
  pure { w with
    admin := some admin
    premiumRecipient := some premiumRecipient
    epochOrigin := some env.sequence
    reserve := some
      { premiumsIn := 0, payoutsOut := 0, unclaimedPremium := 0, outstandingCoverage := 0 } }

def write (caller vault : Address) (provider : Provider)
    (coverage insuredValue : ℤ) (premiumRateBps : ℕ) (triggers : List Trigger)
    (w : World Address) : Outcome Error (World Address) := do
  requireAdmin env caller w
  reject (coverage ≤ 0 ∨ insuredValue ≤ 0) .zeroAmount
  reject (10000 < premiumRateBps) .premiumRateTooHigh
  reject (insuredValue < coverage) .coverageAboveCap
  reject ((w.policies.lookup vault).isSome = true) .policyExists
  let reserve ← loadReserve w
  let newOutstanding ← checkedI128 (reserve.outstandingCoverage + coverage) .mathOverflow
  reject (reserve.unclaimedPremium < newOutstanding) .coverageExceedsReserve
  let policy : Policy Address :=
    { vault, policyholder := vault, provider, coverage, insuredValue, premiumRateBps
      accruedPremium := 0, lastPremiumLedger := env.sequence, triggers, active := true }
  pure { savePolicy w vault policy with
    reserve := some { reserve with outstandingCoverage := newOutstanding } }

def cancel (caller vault : Address) (w : World Address) : Outcome Error (World Address) := do
  requireAdmin env caller w
  let policy ← loadPolicy w vault
  reject (policy.active = false) .noPolicy
  let reserve ← loadReserve w
  let outstandingCoverage ←
    checkedI128 (reserve.outstandingCoverage - policy.coverage) .mathOverflow
  pure { savePolicy w vault { policy with active := false } with
    reserve := some { reserve with outstandingCoverage } }

/-- The premium over the whole epochs since the last collection; within the first one it is what has
already accrued. -/
def assessPremium (vault : Address) (w : World Address) : Outcome Error ℤ := do
  let policy ← loadPolicy w vault
  reject (policy.active = false) .noPolicy
  let elapsed := env.sequence - policy.lastPremiumLedger
  if elapsed < epochLedgers then pure policy.accruedPremium
  else do
    let epochs : ℤ := (elapsed / epochLedgers : ℕ)
    let yearly ← applyBps policy.insuredValue policy.premiumRateBps
    let perEpoch ← divI128 yearly 365
    checkedI128 (perEpoch * epochs) .mathOverflow

/-- Record a deposit, accruing the assessed premium.  The amount is not used. -/
def deposit (vault : Address) (_amount : ℤ) (w : World Address) :
    Outcome Error (World Address) := do
  requireAuth env vault
  let policy ← loadPolicy w vault
  let premium ← assessPremium env vault w
  let accruedPremium ← checkedI128 (policy.accruedPremium + premium) .mathOverflow
  pure (savePolicy w vault { policy with accruedPremium })

/-- Withdraw, collecting the accrued premium.  A withdrawal that is all premium ends the policy and
releases its coverage, whether it was active or not. -/
def withdraw (vault : Address) (amount : ℤ) (w : World Address) :
    Outcome Error ((ℤ × ℤ) × World Address) := do
  requireAuth env vault
  reject (amount ≤ 0) .zeroAmount
  let policy ← loadPolicy w vault
  let premium := min policy.accruedPremium amount
  let net ← checkedI128 (amount - premium) .mathOverflow
  let left := policy.accruedPremium - premium
  let policy := { policy with
    accruedPremium := if IsI128 left then left else 0
    lastPremiumLedger := env.sequence
    active := if net = 0 then false else policy.active }
  let reserve ← loadReserve w
  let premiumsIn ← checkedI128 (reserve.premiumsIn + premium) .mathOverflow
  let unclaimedPremium ← checkedI128 (reserve.unclaimedPremium + premium) .mathOverflow
  let outstandingCoverage ← released net policy.coverage reserve.outstandingCoverage
  pure ((premium, net), { savePolicy w vault policy with
    reserve := some { reserve with premiumsIn, unclaimedPremium, outstandingCoverage } })

/-- The largest coverage that the reserve supports for a new policy. -/
def assessCoverage (insuredValue : ℤ) (w : World Address) : Outcome Error ℤ := do
  let reserve ← loadReserve w
  let free := reserve.unclaimedPremium - reserve.outstandingCoverage
  pure (min (max (-2 ^ 127) (min (2 ^ 127 - 1) free)) insuredValue)

def fund (caller : Address) (amount : ℤ) (w : World Address) : Outcome Error (World Address) := do
  requireAdmin env caller w
  reject (amount ≤ 0) .zeroAmount
  let reserve ← loadReserve w
  let unclaimedPremium ← checkedI128 (reserve.unclaimedPremium + amount) .mathOverflow
  pure { w with reserve := some { reserve with unclaimedPremium } }

/-- Open a claim on an active policy, for a trigger that it declares. -/
def openClaim (claimant vault : Address) (trigger : Trigger) (amount : ℤ)
    (w : World Address) : Outcome Error (World Address) := do
  requireAuth env claimant
  reject (amount ≤ 0) .zeroAmount
  let policy ← loadPolicy w vault
  reject (policy.active = false) .noPolicy
  reject (trigger ∉ policy.triggers) .triggerNotCovered
  reject (policy.coverage < amount) .settlementTooLarge
  reject ((w.claims.lookup vault).isSome = true) .claimAlreadyOpen
  let claim : Claim Address :=
    { vault, claimant, trigger, amount, openedLedger := env.sequence, settled := false }
  pure { w with claims := w.claims.set vault claim }

/-- Pay a claim out of the reserve.  The coverage of the policy is left as it is. -/
def settle (caller vault : Address) (payout : ℤ) (w : World Address) :
    Outcome Error (World Address) := do
  requireAdmin env caller w
  reject (payout ≤ 0) .zeroAmount
  let claim ← okOr (w.claims.lookup vault) .noOpenClaim
  reject (claim.settled = true) .noOpenClaim
  reject (claim.amount < payout) .settlementTooLarge
  let reserve ← loadReserve w
  reject (reserve.unclaimedPremium < payout) .settlementTooLarge
  let unclaimedPremium ← checkedI128 (reserve.unclaimedPremium - payout) .mathOverflow
  let payoutsOut ← checkedI128 (reserve.payoutsOut + payout) .mathOverflow
  pure { w with
    claims := w.claims.set vault { claim with settled := true }
    reserve := some { reserve with unclaimedPremium, payoutsOut } }

def closeClaim (caller vault : Address) (w : World Address) : Outcome Error (World Address) := do
  requireAdmin env caller w
  pure { w with claims := w.claims.remove vault }

/-! ## The system -/

inductive Call (Address : Type) where
  | write (caller vault : Address) (provider : Provider) (coverage insuredValue : ℤ)
      (premiumRateBps : ℕ) (triggers : List Trigger)
  | cancel (caller vault : Address)
  | deposit (vault : Address) (amount : ℤ)
  | withdraw (vault : Address) (amount : ℤ)
  | fund (caller : Address) (amount : ℤ)
  | openClaim (claimant vault : Address) (trigger : Trigger) (amount : ℤ)
  | settle (caller vault : Address) (payout : ℤ)
  | closeClaim (caller vault : Address)

def exec (w : World Address) : Call Address → Outcome Error (World Address)
  | .write caller vault provider coverage insuredValue premiumRateBps triggers =>
      write env caller vault provider coverage insuredValue premiumRateBps triggers w
  | .cancel caller vault => cancel env caller vault w
  | .deposit vault amount => deposit env vault amount w
  | .withdraw vault amount => Prod.snd <$> withdraw env vault amount w
  | .fund caller amount => fund env caller amount w
  | .openClaim claimant vault trigger amount => openClaim env claimant vault trigger amount w
  | .settle caller vault payout => settle env caller vault payout w
  | .closeClaim caller vault => closeClaim env caller vault w

def Step (registry : Address) (w : World Address) (action : Env registry × Call Address)
    (w' : World Address) : Prop :=
  exec action.1 w action.2 = .ok w'

def Initial (registry : Address) (w : World Address) : Prop :=
  ∃ (env : Env registry) (admin premiumRecipient : Address),
    initializeRegistry env admin premiumRecipient {} = .ok w

end Contract

end VaultInsurance
