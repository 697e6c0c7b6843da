import Perigee.Soroban.Store
import Perigee.Soroban.Tokens
import Perigee.Soroban.Run

/-!
# The ERC-4626 vault contract

Depositors of the underlying token receive vault shares, which redeem for the token at the share
price `(totalAssets + VIRTUAL_OFFSET) / (totalSupply + VIRTUAL_OFFSET)`.  The file follows
`contracts/erc4626_vault/src/lib.rs`.  In `redeem` an error of the conversion aborts the call.
-/

namespace Erc4626Vault

open Soroban

/-- `VIRTUAL_OFFSET`, added to both sides of the share price. -/
def virtualOffset : ℤ := 1000

def bpsDenominator : ℤ := 10000

inductive Error where
  | notInitialized
  | alreadyInitialized
  | unauthorized
  | paused
  | zeroAmount
  | mathOverflow
  | divideByZero
  | insufficientShares
  | insufficientAllowance
  | allowanceExpired
  | invalidFee
  deriving DecidableEq

structure Allowance where
  shares : ℤ
  expiresAt : ℕ
  deriving DecidableEq

structure VaultConfig (Address : Type) where
  asset : Address
  admin : Address
  feeRecipient : Address
  performanceFeeBps : ℕ
  lastHarvestLedger : ℕ
  lastHarvestProfit : ℤ
  deriving DecidableEq

inductive VerifierKind where
  | none
  | custom (scheme : ℕ)
  deriving DecidableEq

/-- The storage of the vault and the balances of all tokens.  Keys that the contract reads with
`unwrap_or` are plain fields holding the default until they are written. -/
structure World (Address : Type) where
  config : Option (VaultConfig Address) := none
  totalAssets : ℤ := 0
  totalSupply : ℤ := 0
  paused : Bool := false
  verifierKind : VerifierKind := .none
  verifier : Option Address := none
  shares : Store Address ℤ := ∅
  allowances : Store (Address × Address) Allowance := ∅
  tokens : Tokens Address

/-! ## Math -/

def mulDivFloor (a b c : ℤ) : Outcome Error ℤ := do
  reject (c = 0) .divideByZero
  let product ← checkedI128 (a * b) .mathOverflow
  divI128 product c

def mulDivCeil (a b c : ℤ) : Outcome Error ℤ := do
  reject (c = 0) .divideByZero
  let product ← checkedI128 (a * b) .mathOverflow
  let quotient ← divI128 product c
  if product.tmod c = 0 then pure quotient else i128 (quotient + 1)

section Contract

variable {Address : Type} [DecidableEq Address] {vault : Address}

/-! ## Storage helpers -/

variable (w : World Address)

def loadConfig : Outcome Error (VaultConfig Address) :=
  okOr w.config .notInitialized

variable (env : Env vault)

def requireAdmin (admin : Address) (w : World Address) : Outcome Error Unit := do
  let config ← loadConfig w
  reject (admin ≠ config.admin) .unauthorized
  requireAuth env admin

def requirePositive (amount : ℤ) : Outcome Error Unit := reject (amount ≤ 0) .zeroAmount

def ensureRunning : Outcome Error Unit := reject (w.paused = true) .paused

def getShares (account : Address) : ℤ := w.shares.getD account 0

def setShares (account : Address) (shares : ℤ) : World Address :=
  { w with shares := w.shares.set account shares }

/-! ## Conversions -/

def assetsToSharesFloor (assets : ℤ) : Outcome Error ℤ :=
  if w.totalSupply = 0 ∧ w.totalAssets = 0 then pure assets
  else do
    let supply ← i128 (w.totalSupply + virtualOffset)
    let managed ← i128 (w.totalAssets + virtualOffset)
    mulDivFloor assets supply managed

def assetsToSharesCeil (assets : ℤ) : Outcome Error ℤ := do
  let supply ← i128 (w.totalSupply + virtualOffset)
  let managed ← i128 (w.totalAssets + virtualOffset)
  mulDivCeil assets supply managed

def sharesToAssetsFloor (shares : ℤ) : Outcome Error ℤ := do
  let managed ← i128 (w.totalAssets + virtualOffset)
  let supply ← i128 (w.totalSupply + virtualOffset)
  mulDivFloor shares managed supply

def moveAssets (asset src dst : Address) (amount : ℤ) : Outcome Error (World Address) := do
  let tokens ← w.tokens.transfer asset src dst amount
  pure { w with tokens }

/-! ## Internal accounting -/

def addTotalAssets (delta : ℤ) : Outcome Error (World Address) := do
  let next ← checkedI128 (w.totalAssets + delta) .mathOverflow
  pure { w with totalAssets := next }

def addTotalSupply (delta : ℤ) : Outcome Error (World Address) := do
  let next ← checkedI128 (w.totalSupply + delta) .mathOverflow
  pure { w with totalSupply := next }

def creditShares (account : Address) (shares : ℤ) : Outcome Error (World Address) := do
  let next ← checkedI128 (getShares w account + shares) .mathOverflow
  pure (setShares w account next)

def debitShares (account : Address) (shares : ℤ) : Outcome Error (World Address) := do
  reject (getShares w account < shares) .insufficientShares
  let next ← i128 (getShares w account - shares)
  pure (setShares w account next)

def loadAllowance (owner spender : Address) : Option Allowance :=
  w.allowances.lookup (owner, spender)

def storeAllowance (owner spender : Address) (allowance : Allowance) : World Address :=
  { w with allowances := w.allowances.set (owner, spender) allowance }

def removeAllowance (owner spender : Address) : World Address :=
  { w with allowances := w.allowances.remove (owner, spender) }

/-- Authorize `caller` to move `shares` of `owner`; the result is the number of shares drawn from
an allowance. -/
def authorizeShareSpend (caller owner : Address) (shares : ℤ)
    (w : World Address) : Outcome Error ℤ :=
  if caller = owner then do
    requireAuth env caller
    pure 0
  else do
    let allowance ← okOr (loadAllowance w owner caller) .insufficientAllowance
    reject (allowance.expiresAt ≤ env.sequence) .allowanceExpired
    reject (allowance.shares < shares) .insufficientAllowance
    requireAuth env caller
    pure shares

/-- Draw `consumed` shares out of an allowance, removing the entry when it is exhausted. -/
def consumeAllowance (caller owner : Address) (consumed : ℤ) (w : World Address) :
    Outcome Error (World Address) :=
  if consumed = 0 then pure w
  else
    match loadAllowance w owner caller with
    | none => pure w
    | some allowance => do
      let remaining ← i128 (allowance.shares - consumed)
      if remaining ≤ 0 then pure (removeAllowance w owner caller)
      else pure (storeAllowance w owner caller { allowance with shares := remaining })

/-! ## Entry points -/

def initializeVault (asset admin feeRecipient : Address) (performanceFeeBps : ℕ)
    (w : World Address) : Outcome Error (World Address) := do
  reject (w.config.isSome = true) .alreadyInitialized
  reject (10000 < performanceFeeBps) .invalidFee
  requireAuth env admin
  pure { w with
    config := some
      { asset, admin, feeRecipient, performanceFeeBps
        lastHarvestLedger := env.sequence, lastHarvestProfit := 0 }
    totalAssets := 0
    totalSupply := 0
    paused := false
    verifierKind := .none }

def deposit (caller : Address) (assets : ℤ) (receiver : Address)
    (w : World Address) : Outcome Error (ℤ × World Address) := do
  requirePositive assets
  ensureRunning w
  let config ← loadConfig w
  requireAuth env caller
  let shares ← assetsToSharesFloor w assets
  reject (shares ≤ 0) .zeroAmount
  let w ← moveAssets w config.asset caller vault assets
  let w ← creditShares w receiver shares
  let w ← addTotalAssets w assets
  let w ← addTotalSupply w shares
  pure (shares, w)

/-- Mint exactly `shares` to `receiver`.  The charge is `assetsToSharesCeil` of the shares, as in
the source. -/
def mint (caller : Address) (shares : ℤ) (receiver : Address)
    (w : World Address) : Outcome Error (ℤ × World Address) := do
  requirePositive shares
  ensureRunning w
  let config ← loadConfig w
  requireAuth env caller
  let assets ← assetsToSharesCeil w shares
  reject (assets ≤ 0) .zeroAmount
  let w ← moveAssets w config.asset caller vault assets
  let w ← creditShares w receiver shares
  let w ← addTotalAssets w assets
  let w ← addTotalSupply w shares
  pure (assets, w)

/-- Burn enough of `owner`'s shares to send exactly `assets` to `receiver`. -/
def withdraw (caller : Address) (assets : ℤ) (receiver owner : Address)
    (w : World Address) : Outcome Error (ℤ × World Address) := do
  requirePositive assets
  ensureRunning w
  let config ← loadConfig w
  let shares ← assetsToSharesCeil w assets
  reject (shares ≤ 0) .zeroAmount
  let consumed ← authorizeShareSpend env caller owner shares w
  let w ← debitShares w owner shares
  let w ← consumeAllowance caller owner consumed w
  let w ← moveAssets w config.asset vault receiver assets
  let w ← addTotalAssets w (-assets)
  let w ← addTotalSupply w (-shares)
  pure (shares, w)

def redeem (caller : Address) (shares : ℤ) (receiver owner : Address)
    (w : World Address) : Outcome Error (ℤ × World Address) := do
  requirePositive shares
  ensureRunning w
  let config ← loadConfig w
  let assets ← sharesToAssetsFloor w shares
  let consumed ← authorizeShareSpend env caller owner shares w
  let w ← debitShares w owner shares
  let w ← consumeAllowance caller owner consumed w
  let w ← moveAssets w config.asset vault receiver assets
  let w ← addTotalAssets w (-assets)
  let w ← addTotalSupply w (-shares)
  pure (assets, w)

def approve (caller spender : Address) (shares : ℤ) (validUntil : ℕ)
    (w : World Address) : Outcome Error (World Address) := do
  requirePositive shares
  requireAuth env caller
  reject (validUntil ≤ env.sequence) .allowanceExpired
  pure (storeAllowance w caller spender { shares, expiresAt := validUntil })

def revoke (caller spender : Address) (w : World Address) : Outcome Error (World Address) := do
  requireAuth env caller
  pure (removeAllowance w caller spender)

def permitWithdraw (spender owner : Address) (assets : ℤ) (receiver : Address)
    (w : World Address) : Outcome Error (ℤ × World Address) := do
  requirePositive assets
  ensureRunning w
  requireAuth env spender
  let config ← loadConfig w
  let allowance ← okOr (loadAllowance w owner spender) .insufficientAllowance
  reject (allowance.expiresAt ≤ env.sequence) .allowanceExpired
  let shares ← assetsToSharesCeil w assets
  reject (shares ≤ 0) .zeroAmount
  reject (allowance.shares < shares) .insufficientAllowance
  let remaining ← i128 (allowance.shares - shares)
  let w := if remaining = 0 then removeAllowance w owner spender
    else storeAllowance w owner spender { allowance with shares := remaining }
  let w ← debitShares w owner shares
  let w ← moveAssets w config.asset vault receiver assets
  let w ← addTotalAssets w (-assets)
  let w ← addTotalSupply w (-shares)
  pure (shares, w)

def setPaused (admin : Address) (paused : Bool) (w : World Address) :
    Outcome Error (World Address) := do
  requireAdmin env admin w
  pure { w with paused }

def setAdmin (admin newAdmin : Address) (w : World Address) : Outcome Error (World Address) := do
  requireAdmin env admin w
  let config ← loadConfig w
  pure { w with config := some { config with admin := newAdmin } }

def setFeeRecipient (admin recipient : Address) (w : World Address) :
    Outcome Error (World Address) := do
  requireAdmin env admin w
  let config ← loadConfig w
  pure { w with config := some { config with feeRecipient := recipient } }

def setVerifier (admin : Address) (kind : VerifierKind)
    (verifier : Option Address) (w : World Address) : Outcome Error (World Address) := do
  requireAdmin env admin w
  pure { w with verifierKind := kind, verifier }

def harvestFee (config : VaultConfig Address) (profit : ℤ) : Outcome Error ℤ :=
  if 0 < profit ∧ 0 < config.performanceFeeBps then
    mulDivFloor profit config.performanceFeeBps bpsDenominator
  else pure 0

def payHarvestFee (vault : Address) (config : VaultConfig Address) (fee : ℤ) (w : World Address) :
    Outcome Error (World Address) :=
  if 0 < fee then moveAssets w config.asset vault config.feeRecipient fee else pure w

/-- Replace the recorded total assets with the vault's token balance, less the performance fee. -/
def harvest (admin : Address) (w : World Address) : Outcome Error (ℤ × World Address) := do
  requireAdmin env admin w
  let config ← loadConfig w
  let actual := w.tokens config.asset vault
  let profit ← i128 (actual - w.totalAssets)
  let fee ← harvestFee config profit
  let w ← payHarvestFee vault config fee w
  let newTotal ← i128 (actual - fee)
  let updated := { config with lastHarvestLedger := env.sequence, lastHarvestProfit := profit }
  pure (profit, { w with totalAssets := newTotal, config := some updated })

end Contract

end Erc4626Vault
