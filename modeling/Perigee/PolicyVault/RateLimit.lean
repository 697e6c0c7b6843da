import Perigee.PolicyVault.Contract
import Perigee.Data.Isolation

/-!
# The rate limit of the policy vault

The stored counter of a manager is stale after its epoch has ended.  Every call keeps it as long as
the limit does not change, and a call of one manager does not touch what another one sees, so the
limit holds for each manager by itself (`rate_limit_enforced`).
-/

namespace PolicyVault

open Soroban Isolation

section Contract

variable {Address : Type} [DecidableEq Address] {this : Address} {env : Env this}
  {w w' : World Address} {manager : Address} {vaultId : ℕ} {config : RateLimitConfig}

def vaultsOf (w : World Address) (manager : Address) : ℕ :=
  w.vaults.sumBy fun key _ => if key.1 = manager then 1 else 0

def vaultsIn (w : World Address) (manager : Address) (epoch : ℕ) : ℕ :=
  w.vaults.sumBy fun key record => if key.1 = manager ∧ record.epoch = epoch then 1 else 0

/-! ## What a call does -/

def provisioned (w : World Address) (record : VaultRecord Address) : World Address :=
  let state := loadManagerState w record.manager record.epoch
  { w with
    vaults := w.vaults.set (record.manager, record.vaultId) record
    managers := w.managers.set record.manager
      ⟨record.epoch, state.count + 1, state.totalVaults + 1⟩ }

theorem loadManagerState_epoch (w : World Address) (manager : Address) (epoch : ℕ) :
    (loadManagerState w manager epoch).epoch = epoch := by
  unfold loadManagerState
  split
  · split_ifs with h
    · exact h
    · rfl
  · rfl

theorem createVault_ok {record : VaultRecord Address}
    (h : createVault env manager vaultId w = .ok (record, w')) :
    ∃ config, w.config = some config ∧
      record = ⟨manager, vaultId, env.sequence, epochFor env config.epochLengthLedgers⟩ ∧
      (loadManagerState w manager record.epoch).count < config.maxVaultsPerEpoch ∧
      w.vaults.lookup (manager, vaultId) = none ∧ w' = provisioned w record := by
  simp only [createVault, loadConfig, ok_iff, not_le, Bool.not_eq_true, Option.isSome_eq_false_iff,
    Option.isNone_iff_eq_none] at h
  obtain ⟨_, -, config, hc, _, below, _, fresh, _, ⟨-, rfl⟩, _, ⟨-, rfl⟩, rfl, rfl⟩ := h
  refine ⟨config, hc, rfl, below, fresh, ?_⟩
  unfold provisioned
  rw [loadManagerState_epoch]

/-! ## The counters -/

section Provisioned

variable {record : VaultRecord Address}
  (fresh : w.vaults.lookup (record.manager, record.vaultId) = none)
include fresh

theorem vaultsOf_provisioned (manager : Address) :
    vaultsOf (provisioned w record) manager =
      (if record.manager = manager then 1 else 0) + vaultsOf w manager :=
  Store.sumBy_set_fresh fresh record

theorem vaultsIn_provisioned (manager : Address) (epoch : ℕ) :
    vaultsIn (provisioned w record) manager epoch =
      (if record.manager = manager ∧ record.epoch = epoch then 1 else 0) +
        vaultsIn w manager epoch :=
  Store.sumBy_set_fresh fresh record

end Provisioned

variable {s : Clocked Address} {now : ℕ} {action : Env this × Call Address}

theorem loadManagerState_provisioned_self (record : VaultRecord Address) (epoch : ℕ) :
    loadManagerState (provisioned w record) record.manager epoch =
      let state := loadManagerState w record.manager record.epoch
      ⟨epoch, if record.epoch = epoch then state.count + 1 else 0, state.totalVaults + 1⟩ := by
  rw [loadManagerState, provisioned, Store.lookup_set_self]
  dsimp only
  split_ifs with h
  · rw [h]
  · rfl

/-- From the present epoch on, the counters read back are those of the records; there are no records
of later epochs, and none over the limit. -/
structure Limited (config : RateLimitConfig) (s : Clocked Address) : Prop where
  fixed : s.world.config = some config
  loaded : ∀ manager epoch, s.now / config.epochLengthLedgers ≤ epoch →
    loadManagerState s.world manager epoch =
      ⟨epoch, vaultsIn s.world manager epoch, vaultsOf s.world manager⟩
  future : ∀ manager epoch, s.now / config.epochLengthLedgers < epoch →
    vaultsIn s.world manager epoch = 0
  limit : ∀ manager epoch, vaultsIn s.world manager epoch ≤ config.maxVaultsPerEpoch

theorem Limited.later (limited : Limited config s) (later : s.now ≤ now) (admin : Option Address) :
    Limited config ⟨now, { s.world with admin }⟩ := by
  have epochs := Nat.div_le_div_right (c := config.epochLengthLedgers) later
  exact ⟨limited.fixed, fun m e h => limited.loaded m e (epochs.trans h),
    fun m e h => limited.future m e (epochs.trans_lt h), limited.limit⟩

theorem Limited.provision {record : VaultRecord Address} (limited : Limited config s)
    (later : s.now ≤ now) (epoch : record.epoch = now / config.epochLengthLedgers)
    (below : (loadManagerState s.world record.manager record.epoch).count <
      config.maxVaultsPerEpoch)
    (fresh : s.world.vaults.lookup (record.manager, record.vaultId) = none) :
    Limited config ⟨now, provisioned s.world record⟩ := by
  have epochs := Nat.div_le_div_right (c := config.epochLengthLedgers) later
  have before := limited.loaded record.manager record.epoch (epoch ▸ epochs)
  rw [before] at below
  refine ⟨limited.fixed, fun m e h => ?_, fun m e h => ?_, fun m e => ?_⟩
  · rw [vaultsIn_provisioned fresh, vaultsOf_provisioned fresh]
    by_cases own : m = record.manager
    · subst own
      rw [loadManagerState_provisioned_self, before]
      by_cases this : record.epoch = e
      · subst this
        simp [add_comm]
      · -- The count starts again in a later epoch, of which there are no records yet.
        have none := limited.future record.manager e
          (epochs.trans_lt (lt_of_le_of_ne h (epoch ▸ this)))
        simp [this, none, add_comm]
    · have same : loadManagerState (provisioned s.world record) m e =
          loadManagerState s.world m e := by
        unfold loadManagerState
        rw [provisioned, Store.lookup_set_of_ne _ _ own]
      rw [same, limited.loaded m e (epochs.trans h)]
      simp [Ne.symm own]
  · rw [vaultsIn_provisioned fresh, limited.future m e (epochs.trans_lt h), if_neg]
    rintro ⟨-, rfl⟩
    exact absurd epoch h.ne'
  · rw [vaultsIn_provisioned fresh]
    split_ifs with h
    · obtain ⟨rfl, rfl⟩ := h
      rw [add_comm]
      exact below
    · rw [zero_add]
      exact limited.limit m e

def FixedConfig (config : RateLimitConfig) (s : Clocked Address) : Prop :=
  s.world.config = some config

theorem Limited.step {s' : Clocked Address} (limited : Limited config s)
    (step : Into (FixedConfig config) (Step this) s action s') : Limited config s' := by
  obtain ⟨⟨later, rfl⟩, fixed⟩ := step
  obtain ⟨env, call⟩ := action
  have before := limited.fixed
  unfold FixedConfig respond at fixed
  unfold respond
  rcases h : exec env s.world call with _ | ⟨r, _⟩
  · exact limited.later later s.world.admin
  simp only [h, attempt] at fixed ⊢
  cases call <;>
    simp only [exec, initializeVaults, setRateLimit, setAdmin, map_ok_iff, ok_iff] at h
  case initializeVaults =>
    obtain ⟨_, ⟨_, -, _, -, _, -, rfl⟩, -, rfl⟩ := h
    dsimp only at fixed
    rw [fixed, ← before]
    exact limited.later later _
  case setRateLimit =>
    obtain ⟨_, ⟨_, -, _, -, rfl⟩, -, rfl⟩ := h
    dsimp only at fixed
    rw [fixed, ← before]
    exact limited.later later _
  case setAdmin =>
    obtain ⟨_, ⟨_, -, rfl⟩, -, rfl⟩ := h
    exact limited.later later _
  case createVault =>
    obtain ⟨⟨record, _⟩, h, -, rfl⟩ := h
    obtain ⟨_, hc, rfl, below, fresh, rfl⟩ := createVault_ok h
    obtain rfl := Option.mem_unique before hc
    exact limited.provision later rfl below fresh

theorem initial_limited (init : Initial this s) (fixed : FixedConfig config s) :
    Limited config s := by
  obtain ⟨_, _, _, _, h, -⟩ := init
  obtain ⟨_, _⟩ := s
  simp only [initializeVaults, ok_iff] at h
  obtain ⟨_, -, _, -, _, -, rfl⟩ := h
  exact ⟨fixed, fun _ _ _ => rfl, fun _ _ _ => rfl, fun _ _ => Nat.zero_le _⟩

/-! ## Managers are isolated -/

def concerns (manager : Address) : Env this × Call Address → Bool
  | (_, .createVault other _) => decide (other = manager)
  | _ => true

/-- What the calls of a manager can read: the limit, its counters and its vaults. -/
def seenBy (manager : Address) (w : World Address) :
    Option Address × Option RateLimitConfig × Option ManagerEpochState ×
      (ℕ → Option (VaultRecord Address)) :=
  (w.admin, w.config, w.managers.lookup manager, fun id => w.vaults.lookup (manager, id))

theorem seenBy_eq_iff : seenBy manager w = seenBy manager w' ↔
    w.admin = w'.admin ∧ w.config = w'.config ∧
      w.managers.lookup manager = w'.managers.lookup manager ∧
      ∀ id, w.vaults.lookup (manager, id) = w'.vaults.lookup (manager, id) := by
  simp only [seenBy, Prod.mk.injEq, funext_iff]

theorem loadManagerState_congr (epoch : ℕ)
    (same : w.managers.lookup manager = w'.managers.lookup manager) :
    loadManagerState w manager epoch = loadManagerState w' manager epoch := by
  rw [loadManagerState, same, loadManagerState]

theorem respond_alike {call : Call Address} (seen : concerns manager (env, call) = true)
    (same : seenBy manager w = seenBy manager w') :
    Alike (seenBy manager) (exec env w call) w (exec env w' call) w' := by
  obtain ⟨admins, configs, states, vaults⟩ := seenBy_eq_iff.1 same
  cases call <;>
    simp only [exec, initializeVaults, setRateLimit, setAdmin, createVault, requireAdmin,
      loadAdmin, loadConfig, map_eq_pure_bind, bind_assoc, admins, configs]
  case initializeVaults | setAdmin =>
    refine .bind same fun _ => .bind same fun _ => .bind same fun _ => .pure ?_
    exact seenBy_eq_iff.2 ⟨rfl, rfl, states, vaults⟩
  case setRateLimit =>
    refine .bind same fun _ => .bind same fun _ => .bind same fun _ => .bind same fun _ => .pure ?_
    exact seenBy_eq_iff.2 ⟨rfl, rfl, states, vaults⟩
  case createVault =>
    obtain rfl := of_decide_eq_true seen
    simp only [vaults, loadManagerState_congr _ states]
    refine .bind same fun _ => .bind same fun _ => .bind same fun _ => .bind same fun _ =>
      .bind same fun _ => .bind same fun _ => .pure ?_
    refine seenBy_eq_iff.2 ⟨rfl, rfl, ?_, fun _ => ?_⟩
    · simp only [Store.lookup_set_self]
    · simp only [Store.lookup_set, vaults]

theorem respond_hidden (hidden : concerns manager action = false) :
    seenBy manager (respond w action).2 = seenBy manager w := by
  obtain ⟨env, call⟩ := action
  cases call with
  | initializeVaults | setRateLimit | setAdmin => cases hidden
  | createVault other vaultId =>
    have ne : other ≠ manager := of_decide_eq_false hidden
    unfold respond
    rcases h : exec env w (.createVault other vaultId) with _ | ⟨r, _⟩
    · rfl
    simp only [exec, map_ok_iff] at h
    obtain ⟨⟨_, _⟩, h, -, rfl⟩ := h
    obtain ⟨_, -, rfl, -, -, rfl⟩ := createVault_ok h
    refine seenBy_eq_iff.2 ⟨rfl, rfl, Store.lookup_set_of_ne _ _ ne.symm, fun _ => ?_⟩
    exact Store.lookup_set_of_ne _ _ fun eq => ne (Prod.ext_iff.1 eq).1.symm

theorem managers_isolated (manager : Address) :
    Isolated (respond : World Address → Env this × Call Address → _) (concerns manager)
      (seenBy manager) where
  hidden _ _ hidden := respond_hidden hidden
  next _ _ _ seen same := (respond_alike seen same).2
  out _ _ _ seen same := (respond_alike seen same).1

/-- Under a fixed limit no manager has more records in an epoch than the limit, the views of its
counters agree with its records, and neither its calls nor its views depend on what other managers
call. -/
theorem rate_limit_enforced {s : Clocked Address}
    (reach : Reachable (fun s => Initial this s ∧ FixedConfig config s)
      (Into (FixedConfig config) (Step this)) s) (manager : Address) :
    (∀ epoch, vaultsIn s.world manager epoch ≤ config.maxVaultsPerEpoch) ∧
      (∀ env : Env this, s.now ≤ env.sequence →
        totalVaults env manager s.world = .ok (vaultsOf s.world manager) ∧
        ∃ quota used, remainingQuota env manager s.world = .ok quota ∧
          vaultsThisEpoch env manager s.world = .ok used ∧
          quota + used = config.maxVaultsPerEpoch) ∧
      ∀ actions : List (Env this × Call Address),
        outputs respond (concerns manager) s.world actions =
          outputs respond (concerns manager) s.world (actions.filter (concerns manager)) ∧
        ∀ env : Env this,
          let mixed := final respond s.world actions
          let alone := final respond s.world (actions.filter (concerns manager))
          totalVaults env manager mixed = totalVaults env manager alone ∧
          vaultsThisEpoch env manager mixed = vaultsThisEpoch env manager alone ∧
          remainingQuota env manager mixed = remainingQuota env manager alone ∧
          ∀ id, getVault manager id mixed = getVault manager id alone := by
  have limited : Limited config s := reach.invariant (fun _ h => initial_limited h.1 h.2)
    fun _ _ _ limited step => limited.step step
  refine ⟨limited.limit manager, fun env later => ?_, fun actions => ⟨?_, fun env => ?_⟩⟩
  · have loaded := limited.loaded manager _
      (Nat.div_le_div_right (c := config.epochLengthLedgers) later)
    have fits := limited.limit manager (env.sequence / config.epochLengthLedgers)
    refine ⟨?_, config.maxVaultsPerEpoch - vaultsIn s.world manager
      (env.sequence / config.epochLengthLedgers), _, ?_, ?_, Nat.sub_add_cancel fits⟩
    all_goals
      simp only [totalVaults, remainingQuota, vaultsThisEpoch, loadConfig, limited.fixed, okOr,
        epochFor, ok_iff, Except.ok.injEq, exists_eq_left', loaded]
  · exact (managers_isolated manager).outputs_eq rfl actions
  · have same := (managers_isolated manager).view_final (s := s.world) rfl actions
    obtain ⟨-, configs, states, vaults⟩ := seenBy_eq_iff.1 same
    simp only [totalVaults, vaultsThisEpoch, remainingQuota, getVault, loadConfig, configs,
      loadManagerState_congr _ states, vaults, implies_true, and_self]

end Contract

/-! ## Two managers over two epochs -/

def signedAt (sequence : ℕ) : Env 0 := ⟨sequence, fun a => a != 0, zero_unsigned⟩

/-- Run calls one after another, at ledgers that do not decrease and under a limit of 2 vaults per
10 ledgers. -/
def twoPerTen (actions : List (Env 0 × Call ℕ)) : Outcome Error (Clocked ℕ) := do
  let w ← initializeVaults (signedAt 0) 1 2 10 {}
  actions.foldlM (execIf
    (fun s action => s.now ≤ action.1.sequence ∧ (respond s.world action).2.config = some ⟨2, 10⟩)
    fun s action => .ok ⟨action.1.sequence, (respond s.world action).2⟩) ⟨0, w⟩

theorem twoPerTen_reachable {actions : List (Env 0 × Call ℕ)} {s : Clocked ℕ}
    (h : twoPerTen actions = .ok s) :
    Reachable (fun s => Initial 0 s ∧ FixedConfig ⟨2, 10⟩ s) (Into (FixedConfig ⟨2, 10⟩) (Step 0))
      s := by
  obtain ⟨w, hw, h⟩ := bind_ok_iff.1 h
  have fixed : w.config = some ⟨2, 10⟩ := by
    obtain ⟨_, -, _, -, _, -, rfl⟩ := hw
    rfl
  refine ⟨⟨0, w⟩, actions, ⟨⟨signedAt 0, 1, 2, 10, hw, rfl⟩, fixed⟩, Run.of_foldlM ?_ h⟩
  intro s _ _ step
  obtain ⟨⟨later, fixed⟩, step⟩ := execIf_ok_iff.1 step
  obtain rfl := Except.ok.inj step
  exact ⟨⟨later, rfl⟩, fixed⟩

/-- Manager 5 uses up its quota of the first epoch, is refused a third vault while manager 6 gets
one, and provisions it in the second epoch. -/
theorem third_vault_next_epoch :
    ∃ s, Reachable (fun s => Initial 0 s ∧ FixedConfig ⟨2, 10⟩ s)
        (Into (FixedConfig ⟨2, 10⟩) (Step 0)) s ∧
      vaultsIn s.world 5 0 = 2 ∧ vaultsIn s.world 5 1 = 1 ∧
      totalVaults (signedAt 12) 5 s.world = .ok 3 ∧ ∀ epoch, vaultsIn s.world 5 epoch ≤ 2 := by
  obtain ⟨s, hs, now, first, second, total⟩ : ∃ s, twoPerTen
      [(signedAt 3, .createVault 5 1), (signedAt 3, .createVault 5 2),
        (signedAt 4, .createVault 5 3), (signedAt 4, .createVault 6 3),
        (signedAt 12, .createVault 5 3)] = .ok s ∧
      s.now = 12 ∧ vaultsIn s.world 5 0 = 2 ∧ vaultsIn s.world 5 1 = 1 ∧
      vaultsOf s.world 5 = 3 := by
    decide +kernel
  have reach := twoPerTen_reachable hs
  obtain ⟨limit, views, -⟩ := rate_limit_enforced reach 5
  obtain ⟨read, -⟩ := views (signedAt 12) now.le
  exact ⟨s, reach, first, second, total ▸ read, limit⟩

end PolicyVault
