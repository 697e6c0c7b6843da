import Perigee.Soroban.Store
import Perigee.Soroban.Tokens
import Perigee.Soroban.Run

/-!
# The policy vault contract

Managers provision vaults, each at most a configured number per epoch of ledgers.  The file follows
`contracts/policy_vault/src/lib.rs`; `this` is the address of the contract.
-/

namespace PolicyVault

open Soroban

inductive Error where
  | alreadyInitialized
  | notInitialized
  | unauthorized
  | invalidConfig
  | rateLimitExceeded
  | vaultAlreadyExists
  | overflow
  deriving DecidableEq

structure RateLimitConfig where
  maxVaultsPerEpoch : ℕ
  epochLengthLedgers : ℕ
  deriving DecidableEq

/-- The counters of one manager.  `count` belongs to `epoch`, `totalVaults` to all epochs. -/
structure ManagerEpochState where
  epoch : ℕ
  count : ℕ
  totalVaults : ℕ
  deriving DecidableEq

structure VaultRecord (Address : Type) where
  manager : Address
  vaultId : ℕ
  createdLedger : ℕ
  epoch : ℕ
  deriving DecidableEq

structure World (Address : Type) where
  admin : Option Address := none
  config : Option RateLimitConfig := none
  managers : Store Address ManagerEpochState := ∅
  vaults : Store (Address × ℕ) (VaultRecord Address) := ∅

section Contract

variable {Address : Type} [DecidableEq Address] {this : Address}

/-! ## Helpers -/

def loadAdmin (w : World Address) : Outcome Error Address := okOr w.admin .notInitialized

def loadConfig (w : World Address) : Outcome Error RateLimitConfig := okOr w.config .notInitialized

variable (env : Env this)

def requireAdmin (admin : Address) (w : World Address) : Outcome Error Unit := do
  let stored ← loadAdmin w
  reject (admin ≠ stored) .unauthorized
  requireAuth env admin

def validateConfig (maxVaultsPerEpoch epochLengthLedgers : ℕ) : Outcome Error Unit :=
  reject (maxVaultsPerEpoch = 0 ∨ epochLengthLedgers = 0) .invalidConfig

/-- The epoch of the present ledger.  No stored length is zero. -/
def epochFor (epochLengthLedgers : ℕ) : ℕ := env.sequence / epochLengthLedgers

/-- The counters of a manager in an epoch: the count of another epoch is stale. -/
def loadManagerState (w : World Address) (manager : Address) (currentEpoch : ℕ) :
    ManagerEpochState :=
  match w.managers.lookup manager with
  | some state =>
    if state.epoch = currentEpoch then state
    else { epoch := currentEpoch, count := 0, totalVaults := state.totalVaults }
  | none => { epoch := currentEpoch, count := 0, totalVaults := 0 }

/-! ## Entry points -/

def initializeVaults (admin : Address)
    (maxVaultsPerEpoch epochLengthLedgers : ℕ) (w : World Address) :
    Outcome Error (World Address) := do
  reject (w.admin.isSome = true) .alreadyInitialized
  validateConfig maxVaultsPerEpoch epochLengthLedgers
  requireAuth env admin
  pure { w with admin := some admin, config := some { maxVaultsPerEpoch, epochLengthLedgers } }

def setRateLimit (admin : Address) (maxVaultsPerEpoch epochLengthLedgers : ℕ)
    (w : World Address) : Outcome Error (World Address) := do
  requireAdmin env admin w
  validateConfig maxVaultsPerEpoch epochLengthLedgers
  pure { w with config := some { maxVaultsPerEpoch, epochLengthLedgers } }

def setAdmin (admin newAdmin : Address) (w : World Address) : Outcome Error (World Address) := do
  requireAdmin env admin w
  pure { w with admin := some newAdmin }

def createVault (manager : Address) (vaultId : ℕ) (w : World Address) :
    Outcome Error (VaultRecord Address × World Address) := do
  requireAuth env manager
  let config ← loadConfig w
  let epoch := epochFor env config.epochLengthLedgers
  let state := loadManagerState w manager epoch
  reject (config.maxVaultsPerEpoch ≤ state.count) .rateLimitExceeded
  reject ((w.vaults.lookup (manager, vaultId)).isSome = true) .vaultAlreadyExists
  let record : VaultRecord Address :=
    { manager, vaultId, createdLedger := env.sequence, epoch }
  let count ← u32 (state.count + 1)
  let totalVaults ← checkedU32 (state.totalVaults + 1) .overflow
  pure (record, { w with
    vaults := w.vaults.set (manager, vaultId) record
    managers := w.managers.set manager { state with count, totalVaults } })

/-! ## Views -/

def vaultsThisEpoch (manager : Address) (w : World Address) : Outcome Error ℕ := do
  let config ← loadConfig w
  pure (loadManagerState w manager (epochFor env config.epochLengthLedgers)).count

def totalVaults (manager : Address) (w : World Address) : Outcome Error ℕ := do
  let config ← loadConfig w
  pure (loadManagerState w manager (epochFor env config.epochLengthLedgers)).totalVaults

def remainingQuota (manager : Address) (w : World Address) : Outcome Error ℕ := do
  let config ← loadConfig w
  let state := loadManagerState w manager (epochFor env config.epochLengthLedgers)
  pure (config.maxVaultsPerEpoch - state.count)

def getVault (manager : Address) (vaultId : ℕ) (w : World Address) : Option (VaultRecord Address) :=
  w.vaults.lookup (manager, vaultId)

/-! ## The system -/

inductive Call (Address : Type) where
  | initializeVaults (admin : Address) (maxVaultsPerEpoch epochLengthLedgers : ℕ)
  | setRateLimit (admin : Address) (maxVaultsPerEpoch epochLengthLedgers : ℕ)
  | setAdmin (admin newAdmin : Address)
  | createVault (manager : Address) (vaultId : ℕ)

def exec (w : World Address) :
    Call Address → Outcome Error (Option (VaultRecord Address) × World Address)
  | .initializeVaults admin maxVaultsPerEpoch epochLengthLedgers =>
      (none, ·) <$> initializeVaults env admin maxVaultsPerEpoch epochLengthLedgers w
  | .setRateLimit admin maxVaultsPerEpoch epochLengthLedgers =>
      (none, ·) <$> setRateLimit env admin maxVaultsPerEpoch epochLengthLedgers w
  | .setAdmin admin newAdmin => (none, ·) <$> setAdmin env admin newAdmin w
  | .createVault manager vaultId =>
      (fun r => (some r.1, r.2)) <$> createVault env manager vaultId w

/-- What the host makes of a call: its result, and the state after it. -/
def respond (w : World Address) (action : Env this × Call Address) :
    Outcome Error (Option (VaultRecord Address)) × World Address :=
  attempt (exec action.1 w action.2) w

structure Clocked (Address : Type) where
  now : ℕ
  world : World Address

/-- A call that succeeds or fails, at the present ledger or a later one. -/
def Step (this : Address) (s : Clocked Address) (action : Env this × Call Address)
    (s' : Clocked Address) : Prop :=
  s.now ≤ action.1.sequence ∧ s' = ⟨action.1.sequence, (respond s.world action).2⟩

def Initial (this : Address) (s : Clocked Address) : Prop :=
  ∃ (env : Env this) (admin : Address) (maxVaultsPerEpoch epochLengthLedgers : ℕ),
    initializeVaults env admin maxVaultsPerEpoch epochLengthLedgers {} = .ok s.world ∧
      s.now = env.sequence

end Contract

end PolicyVault
