import Perigee.Soroban.Run
import Perigee.Soroban.Store

/-!
# Fees of a vault's strategy

A fee is charged on what the assets of a vault exceed its principal by.  The file follows the fee
schedule, the rotations and the fees of `contracts/vault_strategy/src/lib.rs`.  Nothing remembers
which profit has been charged: the fee is zero after it was paid only if what is left of the profit
is too small for one (`fees_charged_once`).
-/

namespace VaultStrategy

open Soroban

inductive Error where
  | notInitialized
  | unauthorized
  | strategyAlreadyRegistered
  | noActiveStrategy
  | strategyNotApproved
  | feeTooHigh
  | invalidFeeSplit
  | mathOverflow

abbrev Result (α : Type) := Outcome Error α

structure VaultState (Address : Type) where
  active : Address
  principal : ℤ
  idle : ℤ
  feesPaid : ℤ
  rotationCount : ℕ

/-- The fees and the share of the protocol, in basis points; the recipients are left out. -/
structure FeeConfig where
  managementFeeBps : ℕ
  performanceFeeBps : ℕ
  protocolShareBps : ℕ

structure World (Address : Type) where
  admin : Option Address
  approved : Store Address Bool := ∅
  vaults : Store Address (VaultState Address) := ∅
  fees : Store Address FeeConfig := ∅

variable {Address : Type} [DecidableEq Address]

def mulBpsFloor (amount : ℤ) (bps : ℕ) : Result ℤ :=
  if bps = 0 then pure 0
  else do
    let product ← checkedI128 (amount * bps) .mathOverflow
    pure (product.tdiv 10000)

def setFeeConfig (auth : Address → Bool) (admin vault : Address) (config : FeeConfig)
    (w : World Address) : Result (World Address) := do
  let stored ← okOr w.admin .notInitialized
  reject (admin ≠ stored) .unauthorized
  ensure (auth admin = true)
  reject (config.managementFeeBps > 2000) .feeTooHigh
  reject (config.performanceFeeBps > 2000) .feeTooHigh
  reject (config.protocolShareBps > 10000) .invalidFeeSplit
  pure { w with fees := w.fees.set vault config }

/-- The shares of the vault and of the protocol. -/
def splitFee (fee : ℤ) (protocolShareBps : ℕ) : Result (ℤ × ℤ) := do
  let protocol ← mulBpsFloor fee protocolShareBps
  let vault ← checkedI128 (fee - protocol) .mathOverflow
  pure (vault, protocol)

/-- The strategy left behind; what the source reports besides it are the arguments. -/
def rotate (auth : Address → Bool) (vault to_ : Address) (deployed : ℤ) (w : World Address) :
    Result (Address × World Address) := do
  ensure (auth vault = true)
  reject (w.approved.getD to_ false = false) .strategyNotApproved
  let state ← okOr (w.vaults.lookup vault) .noActiveStrategy
  reject (state.active = to_) .strategyAlreadyRegistered
  let rotationCount ← checkedU32 (state.rotationCount + 1) .mathOverflow
  let state' := { state with active := to_, rotationCount, idle := deployed }
  pure (state.active, { w with vaults := w.vaults.set vault state' })

def charge (profit : ℤ) (bps : ℕ) : Result ℤ :=
  if profit ≤ 0 then pure 0 else mulBpsFloor profit bps

/-- The fee on a profit, with its two shares. -/
def feeOn (config : FeeConfig) (profit : ℤ) : Result (ℤ × ℤ × ℤ) := do
  let managementFee ← charge profit config.managementFeeBps
  let performanceFee ← charge profit config.performanceFeeBps
  let total ← checkedI128 (managementFee + performanceFee) .mathOverflow
  let (vaultShare, protocolShare) ← splitFee total config.protocolShareBps
  pure (total, vaultShare, protocolShare)

def computeFees (vault : Address) (assetsUnderManagement : ℤ) (w : World Address) :
    Result (ℤ × ℤ × ℤ) := do
  let state ← okOr (w.vaults.lookup vault) .noActiveStrategy
  let config ← okOr (w.fees.lookup vault) .notInitialized
  let profit ← checkedI128 (assetsUnderManagement - state.principal) .mathOverflow
  feeOn config profit

def recordFeesPaid (auth : Address → Bool) (vault : Address) (total : ℤ) (w : World Address) :
    Result (World Address) := do
  ensure (auth vault = true)
  let state ← okOr (w.vaults.lookup vault) .noActiveStrategy
  let feesPaid ← checkedI128 (state.feesPaid + total) .mathOverflow
  pure { w with vaults := w.vaults.set vault { state with feesPaid } }

/-! ## The fee on what is left -/

section Profit

variable {config : FeeConfig} {amount amount' fee profit profit' : ℤ} {bps : ℕ}

/-- A profit on which both fees round down to nothing. -/
def Small (config : FeeConfig) (profit : ℤ) : Prop :=
  profit * config.managementFeeBps < 10000 ∧ profit * config.performanceFeeBps < 10000

theorem Small.mono (small : Small config profit) (le : profit' ≤ profit) : Small config profit' :=
  ⟨(mul_le_mul_of_nonneg_right le (by positivity)).trans_lt small.1,
    (mul_le_mul_of_nonneg_right le (by positivity)).trans_lt small.2⟩

/-- A fee that can be computed for an amount can be computed for less, and is no higher there. -/
theorem mulBpsFloor_of_le (h : mulBpsFloor amount bps = .ok fee) (nonneg : 0 ≤ amount')
    (le : amount' ≤ amount) : ∃ fee', mulBpsFloor amount' bps = .ok fee' ∧ 0 ≤ fee' ∧ fee' ≤ fee ∧
      fee < 2 ^ 127 ∧ (fee' = 0 ↔ amount' * bps < 10000) := by
  unfold mulBpsFloor at h ⊢
  split_ifs at h ⊢ with none
  · obtain rfl := pure_ok_iff.1 h
    exact ⟨0, rfl, by simp [none]⟩
  · simp only [ok_iff] at h ⊢
    obtain ⟨_, ⟨range, rfl⟩, rfl⟩ := h
    have products : amount' * bps ≤ amount * bps := mul_le_mul_of_nonneg_right le (by positivity)
    have positive : 0 ≤ amount' * bps := by positivity
    unfold IsI128 at range ⊢
    refine ⟨_, ⟨_, ⟨by omega, rfl⟩, rfl⟩, ?_⟩
    rw [Int.tdiv_eq_ediv_of_nonneg positive, Int.tdiv_eq_ediv_of_nonneg (positive.trans products)]
    omega

theorem charge_of_le (h : charge profit bps = .ok fee) (le : profit' ≤ profit) :
    ∃ fee', charge profit' bps = .ok fee' ∧ 0 ≤ fee' ∧ fee' ≤ fee ∧
      (fee' = 0 ↔ profit' * bps < 10000) := by
  unfold charge at h ⊢
  by_cases nonpos : profit ≤ 0
  · rw [if_pos nonpos] at h
    rw [if_pos (le.trans nonpos)]
    exact ⟨0, rfl, le_rfl, (pure_ok_iff.1 h).le, iff_of_true rfl (by nlinarith)⟩
  · rw [if_neg nonpos] at h
    by_cases nonpos' : profit' ≤ 0
    · obtain ⟨_, -, nonneg, less, -⟩ := mulBpsFloor_of_le h (by omega) le_rfl
      rw [if_pos nonpos']
      exact ⟨0, rfl, le_rfl, nonneg.trans less, iff_of_true rfl (by nlinarith)⟩
    · obtain ⟨fee', charged, nonneg, less, -, zero⟩ := mulBpsFloor_of_le h (by omega) le
      rw [if_neg nonpos']
      exact ⟨fee', charged, nonneg, less, zero⟩

theorem feeOn_of_le {r : ℤ × ℤ × ℤ} (h : feeOn config profit = .ok r) (le : profit' ≤ profit) :
    ∃ r', feeOn config profit' = .ok r' ∧ r'.2.1 + r'.2.2 = r'.1 ∧ 0 ≤ r'.1 ∧ r'.1 < 2 ^ 127 ∧
      (r'.1 = 0 ↔ Small config profit') := by
  simp only [feeOn, splitFee, ok_iff] at h ⊢
  obtain ⟨_, charged, _, charged', _, ⟨range, rfl⟩, _, ⟨_, split, _, ⟨range', rfl⟩, rfl⟩, rfl⟩ := h
  obtain ⟨_, again, nonneg, less, zero⟩ := charge_of_le charged le
  obtain ⟨_, again', nonneg', less', zero'⟩ := charge_of_le charged' le
  obtain ⟨_, split', _, _, _, -⟩ := mulBpsFloor_of_le split
    (add_nonneg nonneg nonneg') (add_le_add less less')
  unfold IsI128 at range range'
  refine ⟨_, ⟨_, again, _, again', _, ⟨⟨by omega, by omega⟩, rfl⟩, _, ⟨_, split', _,
    ⟨⟨by omega, by omega⟩, rfl⟩, rfl⟩, rfl⟩, sub_add_cancel _ _, by omega, by omega, ?_⟩
  rw [Small]
  omega

end Profit

/-! ## Fees taken once -/

inductive Call (Address : Type) where
  | rotate (vault to_ : Address) (deployed : ℤ)
  | recordFeesPaid (vault : Address) (total : ℤ)

def exec (auth : Address → Bool) (w : World Address) : Call Address → Result (World Address)
  | .rotate vault to_ deployed => Prod.snd <$> rotate auth vault to_ deployed w
  | .recordFeesPaid vault total => recordFeesPaid auth vault total w

def Step (w : World Address) (call : (Address → Bool) × Call Address) (w' : World Address) : Prop :=
  exec call.1 w call.2 = .ok w'

variable {vault : Address} {a : ℤ} {r : ℤ × ℤ × ℤ} {w w' : World Address}
  {config : FeeConfig} {principal : ℤ}

/-- The principal and the schedule of a vault. -/
def Has (vault : Address) (principal : ℤ) (config : FeeConfig) (w : World Address) : Prop :=
  (∃ state, w.vaults.lookup vault = some state ∧ state.principal = principal) ∧
    w.fees.lookup vault = some config

theorem Has.computeFees (has : Has vault principal config w) : computeFees vault a w = (do
    let profit ← checkedI128 (a - principal) .mathOverflow
    feeOn config profit) := by
  obtain ⟨⟨_, stored, rfl⟩, schedule⟩ := has
  rw [VaultStrategy.computeFees, stored, schedule]
  rfl

theorem Has.of_set (has : Has vault principal config w) {other : Address}
    {state state' : VaultState Address} (stored : w.vaults.lookup other = some state)
    (same : state'.principal = state.principal) :
    Has vault principal config { w with vaults := w.vaults.set other state' } := by
  obtain ⟨⟨before, found, kept⟩, schedule⟩ := has
  refine ⟨?_, schedule⟩
  rw [Store.lookup_set]
  split_ifs with eq
  · subst eq
    rw [stored] at found
    cases found
    exact ⟨state', rfl, same.trans kept⟩
  · exact ⟨before, found, kept⟩

theorem Has.step {call : (Address → Bool) × Call Address} (has : Has vault principal config w)
    (step : Step w call w') : Has vault principal config w' := by
  obtain ⟨_, call⟩ := call
  cases call with
  | rotate =>
    simp only [Step, exec, map_snd_ok_iff, rotate, ok_iff] at step
    obtain ⟨_, _, -, _, -, state, stored, _, -, _, -, -, rfl⟩ := step
    exact has.of_set stored rfl
  | recordFeesPaid =>
    simp only [Step, exec, recordFeesPaid, ok_iff] at step
    obtain ⟨_, -, state, stored, _, -, rfl⟩ := step
    exact has.of_set stored rfl

/-- The shares of a fee sum to it.  After rotations and recorded payments, assets that do not exceed
what the fee leaves are charged nothing if and only if what it leaves of the profit is small. -/
theorem fees_charged_once (has : Has vault principal config w)
    (h : computeFees vault a w = .ok r) : r.2.1 + r.2.2 = r.1 ∧
    ((∀ calls w', Run Step w calls w' → ∀ a' ≤ a - r.1, ∀ r',
      computeFees vault a' w' = .ok r' → r'.1 = 0) ↔ Small config (a - r.1 - principal)) := by
  rw [has.computeFees] at h
  simp only [ok_iff] at h
  obtain ⟨_, ⟨range, rfl⟩, charged⟩ := h
  obtain ⟨_, again, sum, _, _, zero⟩ := feeOn_of_le charged le_rfl
  obtain rfl := Except.ok.inj (charged.symm.trans again)
  refine ⟨sum, fun free => ?_, fun small calls w' run a' _ r' later => ?_⟩
  · obtain ⟨r', next, -, -, -, zero'⟩ := feeOn_of_le charged
      (show a - r.1 - principal ≤ a - principal by omega)
    have none : a - principal ≤ 0 → r.1 = 0 := fun nonpos =>
      zero.2 (Small.mono ⟨by simp, by simp⟩ nonpos)
    have range' : IsI128 (a - r.1 - principal) := by
      unfold IsI128 at range ⊢
      omega
    refine zero'.1 (free [] w .nil _ le_rfl r' ?_)
    rw [has.computeFees]
    exact bind_ok_iff.2 ⟨_, checkedI128_ok_iff.2 ⟨range', rfl⟩, next⟩
  · have has' : Has vault principal config w' := run.invariant has fun _ _ _ => Has.step
    rw [has'.computeFees] at later
    simp only [ok_iff] at later
    obtain ⟨_, ⟨-, rfl⟩, later⟩ := later
    obtain ⟨_, same, -, -, -, zero'⟩ := feeOn_of_le later le_rfl
    obtain rfl := Except.ok.inj (later.symm.trans same)
    exact zero'.2 (small.mono (by omega))

/-! ## A vault with twice its principal -/

def everybody : ℕ → Bool := fun _ => true

def funded (managementFeeBps : ℕ) : World ℕ where
  admin := some 0
  approved := (∅ : Store ℕ Bool).set 2 true
  vaults := (∅ : Store ℕ (VaultState ℕ)).set 1 ⟨3, 1000, 1000, 0, 0⟩
  fees := (∅ : Store ℕ FeeConfig).set 1 ⟨managementFeeBps, 0, 5000⟩

theorem small_profit_charged_once : ∃ r, computeFees 1 1005 (funded 2000) = .ok r ∧ r.1 = 1 ∧
    ∀ calls w', Run Step (funded 2000) calls w' → ∀ a' ≤ 1004, ∀ r',
      computeFees 1 a' w' = .ok r' → r'.1 = 0 := by
  have has : Has 1 1000 ⟨2000, 0, 5000⟩ (funded 2000) := ⟨⟨_, rfl, rfl⟩, rfl⟩
  have first : computeFees 1 1005 (funded 2000) = .ok (1, 1, 0) := rfl
  exact ⟨_, first, rfl, (fees_charged_once has first).2.2 ⟨by decide, by decide⟩⟩

/-- The fee of 200 on a profit of 1000 is paid and the strategy rotated; the 800 that are left are
charged again. -/
theorem profit_charged_twice : ∃ w, setFeeConfig everybody 0 1 ⟨2000, 0, 5000⟩ (funded 0) = .ok w ∧
    computeFees 1 2000 w = .ok (200, 100, 100) ∧
    ∃ w', recordFeesPaid everybody 1 200 w = .ok w' ∧
      ∃ w'', Prod.snd <$> rotate everybody 1 2 1800 w' = .ok w'' ∧
        computeFees 1 1800 w'' = .ok (160, 80, 80) :=
  ⟨_, rfl, rfl, _, rfl, _, rfl, rfl⟩

end VaultStrategy
