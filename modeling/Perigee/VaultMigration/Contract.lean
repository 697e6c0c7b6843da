import Perigee.Soroban.Index
import Perigee.Soroban.Run
import Perigee.Soroban.Tokens

/-!
# The vault migration registry

A vault has one adapter for each version, and each adapter holds positions of owners.  An owner opts
in to the latest version and then migrates.  The file follows
`contracts/vault_migration/src/lib.rs`.  The adapters are other contracts; they are modelled as the
README asks of them: an adapter stores what it imports or refuses it (`accepts`), and exporting only
reads.
-/

namespace VaultMigration

open Soroban

inductive Error where
  | alreadyInitialized
  | notInitialized
  | unauthorized
  | vaultAlreadyRegistered
  | vaultNotFound
  | versionAlreadyRegistered
  | versionNotNext
  | staleVersion
  | invalidSnapshot
  | migrationNotOptedIn
  | noMigrationRequired
  | optInOutdated
  | invalidTargetVersion
  | destinationAlreadyInitialized
  deriving DecidableEq

structure VaultSnapshot (Address : Type) where
  vaultId : ℕ
  owner : Address
  schemaVersion : ℕ
  asset : Address
  assets : ℤ
  shares : ℤ
  strategy : Option Address
  deriving DecidableEq

structure MigrationStatus where
  currentVersion : ℕ
  optedInVersion : Option ℕ
  deriving DecidableEq

structure VaultConfig where
  legacyVersion : ℕ
  latestVersion : ℕ
  deriving DecidableEq

structure MigrationOptIn where
  targetVersion : ℕ
  optedInLedger : ℕ
  deriving DecidableEq

/-- The storage of the registry, and what the adapters hold: `positions` is indexed by adapter,
vault and owner. -/
structure World (Address : Type) where
  admin : Option Address := none
  vaults : Store ℕ VaultConfig := ∅
  adapters : Store (ℕ × ℕ) Address := ∅
  userVersions : Store (ℕ × Address) ℕ := ∅
  optIns : Store (ℕ × Address) MigrationOptIn := ∅
  positions : Store (Address × ℕ × Address) (VaultSnapshot Address) := ∅

abbrev Result (α : Type) := Outcome Error α

section Contract

variable {Address : Type} [DecidableEq Address] {this : Address}

/-! ## Adapters -/

def exportState (adapter : Address) (vaultId : ℕ) (owner : Address) (w : World Address) :
    Result (VaultSnapshot Address) :=
  unwrap (w.positions.lookup (adapter, vaultId, owner))

def hasState (adapter : Address) (vaultId : ℕ) (owner : Address) (w : World Address) : Bool :=
  w.positions.has (adapter, vaultId, owner)

variable (accepts : Address → VaultSnapshot Address → Bool)

def importState (adapter : Address)
    (vaultId : ℕ) (owner : Address) (snapshot : VaultSnapshot Address) (w : World Address) :
    Result (World Address) := do
  ensure (accepts adapter snapshot = true)
  pure { w with positions := w.positions.set (adapter, vaultId, owner) snapshot }

/-! ## Helpers -/

variable (env : Env this)

def requireAdmin (admin : Address) (w : World Address) : Result Unit := do
  let stored ← okOr w.admin .notInitialized
  reject (admin ≠ stored) .unauthorized
  requireAuth env admin

def touchInstance (w : World Address) : Result Unit := reject (w.admin = none) .notInitialized

def loadVault (vaultId : ℕ) (w : World Address) : Result VaultConfig := do
  touchInstance w
  okOr (w.vaults.lookup vaultId) .vaultNotFound

def loadAdapter (vaultId version : ℕ) (w : World Address) : Result Address :=
  okOr (w.adapters.lookup (vaultId, version)) .invalidTargetVersion

def userVersion (vaultId : ℕ) (owner : Address) (legacy : ℕ) (w : World Address) : ℕ :=
  w.userVersions.getD (vaultId, owner) legacy

def validateSnapshot (snapshot : VaultSnapshot Address) (vaultId : ℕ) (owner : Address)
    (version : ℕ) : Result Unit :=
  reject (snapshot.vaultId ≠ vaultId ∨ snapshot.owner ≠ owner ∨ snapshot.schemaVersion ≠ version ∨
    snapshot.assets < 0 ∨ snapshot.shares < 0) .invalidSnapshot

/-! ## Entry points -/

def initializeRegistry (admin : Address) (w : World Address) : Result (World Address) := do
  reject (w.admin.isSome = true) .alreadyInitialized
  requireAuth env admin
  pure { w with admin := some admin }

def registerVault (admin : Address) (vaultId legacyVersion : ℕ)
    (legacyAdapter : Address) (w : World Address) : Result (World Address) := do
  requireAdmin env admin w
  reject (legacyVersion = 0) .invalidTargetVersion
  reject (w.vaults.has vaultId = true) .vaultAlreadyRegistered
  pure { w with
    vaults := w.vaults.set vaultId ⟨legacyVersion, legacyVersion⟩
    adapters := w.adapters.set (vaultId, legacyVersion) legacyAdapter }

def registerVersion (admin : Address) (vaultId expectedLatestVersion version : ℕ)
    (adapter : Address) (w : World Address) : Result (World Address) := do
  requireAdmin env admin w
  let config ← loadVault vaultId w
  reject (config.latestVersion ≠ expectedLatestVersion) .staleVersion
  let nextVersion ← checkedU32 (config.latestVersion + 1) .invalidTargetVersion
  reject (version ≠ nextVersion) .versionNotNext
  reject (w.adapters.has (vaultId, version) = true) .versionAlreadyRegistered
  pure { w with
    adapters := w.adapters.set (vaultId, version) adapter
    vaults := w.vaults.set vaultId { config with latestVersion := version } }

def optIn (vaultId : ℕ) (owner : Address) (targetVersion : ℕ)
    (w : World Address) : Result (World Address) := do
  requireAuth env owner
  let config ← loadVault vaultId w
  reject (targetVersion ≠ config.latestVersion) .invalidTargetVersion
  let current := userVersion vaultId owner config.legacyVersion w
  reject (targetVersion ≤ current) .noMigrationRequired
  let _ ← loadAdapter vaultId targetVersion w
  pure { w with optIns := w.optIns.set (vaultId, owner) ⟨targetVersion, env.sequence⟩ }

def cancelOptIn (vaultId : ℕ) (owner : Address) (w : World Address) : Result (World Address) := do
  requireAuth env owner
  let _ ← loadVault vaultId w
  reject (w.optIns.has (vaultId, owner) = false) .migrationNotOptedIn
  pure { w with optIns := w.optIns.remove (vaultId, owner) }

def migrate (env : Env this) (vaultId : ℕ)
    (owner : Address) (w : World Address) : Result (VaultSnapshot Address × World Address) := do
  requireAuth env owner
  let config ← loadVault vaultId w
  let optIn ← okOr (w.optIns.lookup (vaultId, owner)) .migrationNotOptedIn
  reject (optIn.targetVersion ≠ config.latestVersion) .optInOutdated
  let fromVersion := userVersion vaultId owner config.legacyVersion w
  reject (optIn.targetVersion ≤ fromVersion) .noMigrationRequired
  let source ← loadAdapter vaultId fromVersion w
  let target ← loadAdapter vaultId optIn.targetVersion w
  let exported ← exportState source vaultId owner w
  validateSnapshot exported vaultId owner fromVersion
  reject (hasState target vaultId owner w = true) .destinationAlreadyInitialized
  let snapshot := { exported with schemaVersion := optIn.targetVersion }
  let w₁ ← importState accepts target vaultId owner snapshot w
  let migrated ← exportState target vaultId owner w₁
  validateSnapshot migrated vaultId owner optIn.targetVersion
  reject (migrated.asset ≠ snapshot.asset ∨ migrated.assets ≠ snapshot.assets ∨
    migrated.shares ≠ snapshot.shares ∨ migrated.strategy ≠ snapshot.strategy) .invalidSnapshot
  pure (migrated, { w₁ with
    userVersions := w₁.userVersions.set (vaultId, owner) optIn.targetVersion
    optIns := w₁.optIns.remove (vaultId, owner) })

def status (vaultId : ℕ) (owner : Address) (w : World Address) : Result MigrationStatus := do
  let config ← loadVault vaultId w
  pure ⟨userVersion vaultId owner config.legacyVersion w,
    (w.optIns.lookup (vaultId, owner)).map MigrationOptIn.targetVersion⟩

/-! ## Runs -/

inductive Call (Address : Type) where
  | initializeRegistry (admin : Address)
  | registerVault (admin : Address) (vaultId legacyVersion : ℕ) (legacyAdapter : Address)
  | registerVersion (admin : Address) (vaultId expectedLatestVersion version : ℕ)
      (adapter : Address)
  | optIn (vaultId : ℕ) (owner : Address) (targetVersion : ℕ)
  | cancelOptIn (vaultId : ℕ) (owner : Address)
  | migrate (vaultId : ℕ) (owner : Address)
  deriving DecidableEq

def exec (w : World Address) :
    Env this × Call Address → Result (World Address)
  | (env, .initializeRegistry admin) => initializeRegistry env admin w
  | (env, .registerVault admin vaultId legacyVersion legacyAdapter) =>
    registerVault env admin vaultId legacyVersion legacyAdapter w
  | (env, .registerVersion admin vaultId expectedLatestVersion version adapter) =>
    registerVersion env admin vaultId expectedLatestVersion version adapter w
  | (env, .optIn vaultId owner targetVersion) => optIn env vaultId owner targetVersion w
  | (env, .cancelOptIn vaultId owner) => cancelOptIn env vaultId owner w
  | (env, .migrate vaultId owner) => Prod.snd <$> migrate accepts env vaultId owner w

def Step (w : World Address) (call : Env this × Call Address) (w' : World Address) : Prop :=
  exec accepts w call = .ok w'

def Fresh (w : World Address) : Prop :=
  w.vaults = ∅ ∧ w.adapters = ∅ ∧ w.userVersions = ∅

end Contract

end VaultMigration
