import Perigee.VaultMigration.Contract

/-!
# Where a position is

A migration does not move a position: it copies it to the adapter of the latest version, and the old
adapter keeps what it had (`Copies`).  So over a run what the adapters hold for an owner grows by a
position with each migration (`migration_copies`).  Versions are registered one after the other so
that no migration skips one, but a migration goes to the latest however many lie between.
-/

namespace VaultMigration

open Soroban

variable {Address : Type} [DecidableEq Address] {this : Address}
  {accepts : Address → VaultSnapshot Address → Bool}

/-- The sum of a quantity over what all adapters hold for an owner of a vault. -/
def total (quantity : VaultSnapshot Address → ℤ) (vaultId : ℕ) (owner : Address)
    (w : World Address) : ℤ :=
  w.positions.sumBy fun key snapshot =>
    if key.2 = (vaultId, owner) then quantity snapshot else 0

def holders (vaultId : ℕ) (owner : Address) (w : World Address) : ℤ :=
  total (fun _ => 1) vaultId owner w

/-- A migration copies a position: the owner's version goes from an older one to the latest, whose
adapter held nothing and then holds what the adapter of the older version holds, under the new
version; all that the adapters held before they still hold. -/
structure Copies (w : World Address) (vaultId : ℕ) (owner : Address) (config : VaultConfig)
    (source target : Address) (snapshot migrated : VaultSnapshot Address) (w' : World Address) :
    Prop where
  stored : w.vaults.lookup vaultId = some config
  behind : userVersion vaultId owner config.legacyVersion w < config.latestVersion
  sourceAt : w.adapters.lookup (vaultId, userVersion vaultId owner config.legacyVersion w) =
    some source
  targetAt : w.adapters.lookup (vaultId, config.latestVersion) = some target
  held : w.positions.lookup (source, vaultId, owner) = some snapshot
  empty : w.positions.lookup (target, vaultId, owner) = none
  same : migrated = { snapshot with schemaVersion := config.latestVersion }
  copied : w'.positions = w.positions.set (target, vaultId, owner) migrated
  version : userVersion vaultId owner config.legacyVersion w' = config.latestVersion

section Calls

variable {env : Env this} {call : Call Address} {w w' : World Address} {vaultId : ℕ}
  {owner : Address} {config : VaultConfig} {migrated : VaultSnapshot Address}

omit [DecidableEq Address] in
theorem loadVault_ok_iff :
    loadVault vaultId w = .ok config ↔ w.admin ≠ none ∧ w.vaults.lookup vaultId = some config := by
  simp [loadVault, touchInstance, ok_iff]

theorem migrate_copies (h : migrate accepts env vaultId owner w = .ok (migrated, w')) :
    ∃ config source target snapshot,
      Copies w vaultId owner config source target snapshot migrated w' := by
  simp only [migrate, importState, exportState, loadAdapter, ok_iff, loadVault_ok_iff, not_not,
    not_le] at h
  obtain ⟨_, -, config, ⟨-, stored⟩, _, -, _, latest, _, behind, source, hsource, target, htarget,
    snapshot, held, _, -, _, empty, _, ⟨_, -, rfl⟩, _, again, _, -, _, -, result⟩ := h
  obtain ⟨rfl, rfl⟩ := Prod.mk.inj result
  rw [latest] at behind htarget again
  obtain rfl := Option.some.inj ((Store.lookup_set_self _ _ _).symm.trans again)
  refine ⟨config, source, target, snapshot, stored, behind, hsource, htarget, held, ?_, rfl, ?_, ?_⟩
  · simpa [hasState, Store.has] using empty
  · rw [latest]
  · rw [userVersion, Store.getD_set, if_pos rfl, latest]

theorem exec_positions (other : ∀ vaultId owner, call ≠ .migrate vaultId owner)
    (h : exec accepts w (env, call) = .ok w') : w'.positions = w.positions := by
  cases call <;>
    simp only [exec, initializeRegistry, registerVault, registerVersion, optIn, cancelOptIn,
      ok_iff] at h
  case initializeRegistry =>
    obtain ⟨_, -, _, -, rfl⟩ := h
    rfl
  case registerVault | cancelOptIn =>
    obtain ⟨_, -, _, -, _, -, rfl⟩ := h
    rfl
  case registerVersion =>
    obtain ⟨_, -, _, -, _, -, _, -, _, -, _, -, rfl⟩ := h
    rfl
  case optIn =>
    obtain ⟨_, -, _, -, _, -, _, -, _, -, rfl⟩ := h
    rfl
  case migrate vaultId owner => exact absurd rfl (other vaultId owner)

theorem Copies.total {source target user : Address} {snapshot : VaultSnapshot Address} {id : ℕ}
    (copies : Copies w id user config source target snapshot migrated w')
    (quantity : VaultSnapshot Address → ℤ) (vaultId : ℕ) (owner : Address) :
    VaultMigration.total quantity vaultId owner w' =
      VaultMigration.total quantity vaultId owner w +
        if (id, user) = (vaultId, owner) then quantity migrated else 0 := by
  rw [VaultMigration.total, copies.copied, Store.sumBy_set_fresh copies.empty]
  exact add_comm _ _

end Calls

def migrations (vaultId : ℕ) (owner : Address) (calls : List (Env this × Call Address)) : ℕ :=
  calls.countP fun call => call.2 = .migrate vaultId owner

/-- The sums over all adapters have grown by those of the copies. -/
structure GrownBy (copies : List (VaultSnapshot Address)) (vaultId : ℕ) (owner : Address)
    (w w' : World Address) : Prop where
  holders : VaultMigration.holders vaultId owner w' =
    VaultMigration.holders vaultId owner w + copies.length
  assets : total VaultSnapshot.assets vaultId owner w' =
    total VaultSnapshot.assets vaultId owner w + (copies.map VaultSnapshot.assets).sum
  shares : total VaultSnapshot.shares vaultId owner w' =
    total VaultSnapshot.shares vaultId owner w + (copies.map VaultSnapshot.shares).sum

section Run

variable {w w' : World Address} {calls : List (Env this × Call Address)}

theorem total_of_run (run : Run (Step accepts) w calls w') (vaultId : ℕ) (owner : Address) :
    ∃ copies : List (VaultSnapshot Address), copies.length = migrations vaultId owner calls ∧
      ∀ quantity, total quantity vaultId owner w' =
        total quantity vaultId owner w + (copies.map quantity).sum := by
  induction run with
  | nil => exact ⟨[], rfl, fun _ => (add_zero _).symm⟩
  | @snoc calls _ _ call _ last ih =>
    obtain ⟨copies, count, grown⟩ := ih
    obtain ⟨env, call⟩ := call
    have counted : migrations vaultId owner (calls ++ [(env, call)]) = copies.length +
        if call = .migrate vaultId owner then 1 else 0 := by
      rw [count]
      simp [migrations]
    -- another call, a migration of somebody else, or one of this owner
    by_cases other : ∀ id user, call ≠ .migrate id user
    · rw [counted, if_neg (other vaultId owner)]
      refine ⟨copies, rfl, fun quantity => ?_⟩
      rw [← grown, total, total, exec_positions other last]
    · simp only [not_forall, not_not] at other
      obtain ⟨id, user, rfl⟩ := other
      obtain ⟨migrated, done⟩ := map_snd_ok_iff.1 last
      obtain ⟨_, _, _, _, copied⟩ := migrate_copies done
      by_cases mine : id = vaultId ∧ user = owner
      · obtain ⟨rfl, rfl⟩ := mine
        rw [counted]
        refine ⟨copies ++ [migrated], by simp, fun quantity => ?_⟩
        rw [copied.total, grown]
        simp [add_assoc]
      · have others : (id, user) ≠ (vaultId, owner) := fun h => mine (Prod.mk.inj h)
        have unequal : Call.migrate id user ≠ .migrate vaultId owner := fun h =>
          mine (by injection h with ids users; exact ⟨ids, users⟩)
        rw [counted, if_neg unequal]
        refine ⟨copies, rfl, fun quantity => ?_⟩
        rw [copied.total, if_neg others, add_zero, grown]

/-- In every state a migration that returns copies the position to the latest version, which is the
next one just when no other lies between.  Over a run the sums over all adapters grow by one copy
for each migration of the owner, and by nothing else. -/
theorem migration_copies (run : Run (Step accepts) w calls w') (vaultId : ℕ) (owner : Address) :
    (∀ (env : Env this) (migrated : VaultSnapshot Address) (w'' : World Address),
      migrate accepts env vaultId owner w' = .ok (migrated, w'') →
      ∃ config source target snapshot,
        Copies w' vaultId owner config source target snapshot migrated w'' ∧
        (userVersion vaultId owner config.legacyVersion w'' =
            userVersion vaultId owner config.legacyVersion w' + 1 ↔
          config.latestVersion = userVersion vaultId owner config.legacyVersion w' + 1)) ∧
    ∃ copies : List (VaultSnapshot Address),
      copies.length = migrations vaultId owner calls ∧ GrownBy copies vaultId owner w w' := by
  obtain ⟨copies, count, grown⟩ := total_of_run run vaultId owner
  refine ⟨fun env migrated w'' done => ?_, copies, count, ?_, grown _, grown _⟩
  · obtain ⟨config, source, target, snapshot, copied⟩ := migrate_copies done
    exact ⟨config, source, target, snapshot, copied, by rw [copied.version]⟩
  · simp [holders, grown]

end Run

/-! ## One version at a time, and two at once -/

def signed (call : Call ℕ) : Env 0 × Call ℕ := (⟨0, fun a => a ≠ 0, zero_unsigned⟩, call)

/-- Owner `2` has a position in the adapter at address `10`. -/
def legacy : World ℕ where
  positions := (∅ : Store _ _).set (10, 7, 2) ⟨7, 2, 1, 5, 100, 40, none⟩

/-- Vault `7` starts at version one.  The owner migrates to the second version and opts in to the
third. -/
def inStep : List (Env 0 × Call ℕ) :=
  [signed (.initializeRegistry 1), signed (.registerVault 1 7 1 10),
    signed (.registerVersion 1 7 1 2 20), signed (.optIn 7 2 2), signed (.migrate 7 2),
    signed (.registerVersion 1 7 2 3 30), signed (.optIn 7 2 3)]

/-- One more migration takes the owner from the second version to the third. -/
theorem inStep_copies : ∃ w copies, Run (Step fun _ _ => true) legacy inStep w ∧
    List.length copies = 1 ∧ GrownBy copies 7 2 legacy w ∧
    ∃ r, migrate (fun _ _ => true) (signed (.migrate 7 2)).1 7 2 w = .ok r ∧
      userVersion 7 2 1 r.2 = userVersion 7 2 1 w + 1 := by
  obtain ⟨w, run, stored, version, r, done⟩ : ∃ w, Run (Step fun _ _ => true) legacy inStep w ∧
      w.vaults.lookup 7 = some ⟨1, 3⟩ ∧ userVersion 7 2 1 w = 2 ∧
      ∃ r, migrate (fun _ _ => true) (signed (.migrate 7 2)).1 7 2 w = .ok r :=
    exists_run (fun _ _ _ => id) (by decide +kernel)
  obtain ⟨next, copies, count, grown⟩ := migration_copies run 7 2
  obtain ⟨config, _, _, _, copied, one⟩ := next _ _ _ done
  obtain rfl := Option.mem_unique copied.stored stored
  exact ⟨w, copies, run, count.trans (by decide), grown, r, done, one.2 (by rw [version])⟩

/-- Both versions are registered before the owner opts in to the third and migrates. -/
def upgraded : List (Env 0 × Call ℕ) :=
  [signed (.initializeRegistry 1), signed (.registerVault 1 7 1 10),
    signed (.registerVersion 1 7 1 2 20), signed (.registerVersion 1 7 2 3 30),
    signed (.optIn 7 2 3), signed (.migrate 7 2)]

/-- The migration skips version two, and leaves the position in two adapters: the assets and shares
held for the owner have doubled. -/
theorem migration_skips_version : ∃ w, Fresh legacy ∧
    Run (Step fun _ _ => true) legacy upgraded w ∧
    userVersion 7 2 1 legacy = 1 ∧ userVersion 7 2 1 w = 3 ∧
    (w.positions.has (10, 7, 2) = true ∧ w.positions.has (30, 7, 2) = true) ∧
    total VaultSnapshot.assets 7 2 legacy = 100 ∧ total VaultSnapshot.assets 7 2 w = 200 ∧
    total VaultSnapshot.shares 7 2 legacy = 40 ∧ total VaultSnapshot.shares 7 2 w = 80 := by
  obtain ⟨w, run, version, first, third, assets, shares⟩ : ∃ w,
      Run (Step fun _ _ => true) legacy upgraded w ∧
      userVersion 7 2 1 w = 3 ∧ w.positions.has (10, 7, 2) = true ∧
      w.positions.has (30, 7, 2) = true ∧ total VaultSnapshot.assets 7 2 w = 200 ∧
      total VaultSnapshot.shares 7 2 w = 80 :=
    exists_run (fun _ _ _ => id) (by decide +kernel)
  exact ⟨w, ⟨rfl, rfl, rfl⟩, run, by decide +kernel, version, ⟨first, third⟩, by decide +kernel,
    assets, by decide +kernel, shares⟩

end VaultMigration
