import Perigee.FeeEngine.Account

/-!
# What the engine does to the vaults and to the fee history

One inversion lemma for each entry point, and the refinement that the rest of the development uses:
along a run of the engine, the account of every vault follows the events of its calls
(`watching_account`).
-/

namespace FeeEngine

open Soroban

section Contract

variable {Address : Type} [DecidableEq Address] {engine : Address} {env : LedgerEnv engine}
  {w w' : World Address} {vault : Address} {amount aum nav fee : ℤ} {protocolShareBps : ℕ}
  {event : Event} {state : VaultState} {b : FeeBreakdown} {v : Address} {j : Journal}

def termsOf (env : LedgerEnv engine) (w : World Address) : Terms where
  now := env.timestamp
  managementFeeBps := w.config.elim 0 FeeConfig.managementFeeBps
  rate size := (perfRateForProfit w.perfTiers size).getD
    (w.config.elim 0 FeeConfig.performanceFeeBps)

structure SameSetup (w w' : World Address) : Prop where
  config : w'.config = w.config
  perfTiers : w'.perfTiers = w.perfTiers
  discountTiers : w'.discountTiers = w.discountTiers
  stakes : w'.stakes = w.stakes

/-- One vault undergoes an event, on the terms in force. -/
structure Effect (env : LedgerEnv engine) (vault : Address) (event : Event) (w w' : World Address) :
    Prop where
  lookup : ∀ v, w'.vaults.lookup v = if v = vault
    then some ((loadVaultOrDefault w vault).apply (termsOf env w) event) else w.vaults.lookup v
  setup : SameSetup w w'

/-! ## The fee history -/

structure FeeRecord.Consistent (record : FeeRecord Address) : Prop where
  net : record.net = record.gross - record.discount
  shares : record.net = record.vaultShare + record.protocolShare

/-- A consistent record of `net` for the vault is appended to the history. -/
def Appended (vault : Address) (net : ℤ) (w w' : World Address) : Prop :=
  ∃ record : FeeRecord Address, record.Consistent ∧ record.vault = vault ∧ record.net = net ∧
    record.seq = nextFeeSeq w ∧ w'.feeSeq = nextFeeSeq w ∧
    w'.feeHistory = w.feeHistory.set (nextFeeSeq w) record

/-- A fee is recorded in full, unless there is none. -/
def Logged (vault : Address) (fee : ℤ) (w w' : World Address) : Prop :=
  (fee = 0 ∧ w'.feeSeq = w.feeSeq ∧ w'.feeHistory = w.feeHistory) ∨
    (0 < fee ∧ Appended vault fee w w')

theorem splitFee_ok {shares : ℤ × ℤ} (h : splitFee fee protocolShareBps = .ok shares) :
    fee = shares.1 + shares.2 := by
  simp only [splitFee, ok_iff] at h
  obtain ⟨_, -, protocol, -, _, ⟨-, rfl⟩, rfl⟩ := h
  exact (sub_add_cancel fee protocol).symm

omit [DecidableEq Address] in
theorem recordFee_ok {kind : FeeKind} (nonneg : 0 ≤ fee)
    (h : recordFee env vault fee protocolShareBps kind w = .ok w') :
    Logged vault fee w w' ∧ w'.vaults = w.vaults ∧ SameSetup w w' := by
  unfold recordFee at h
  split_ifs at h with positive
  · simp only [ok_iff] at h
    obtain ⟨_, split, rfl⟩ := h
    exact ⟨.inr ⟨positive, _, ⟨(sub_zero fee).symm, splitFee_ok split⟩, rfl, rfl, rfl, rfl, rfl⟩,
      rfl,
      ⟨rfl, rfl, rfl, rfl⟩⟩
  · obtain rfl := pure_ok_iff.1 h
    exact ⟨.inl ⟨le_antisymm (not_lt.1 positive) nonneg, rfl, rfl⟩, rfl, ⟨rfl, rfl, rfl, rfl⟩⟩

/-! ## Fees -/

theorem applyBps_ok {bps : ℕ} {y : ℤ} (h : applyBps amount bps = .ok y) :
    y = (amount * bps).tdiv bpsDenominator := by
  simp only [applyBps, ok_iff] at h
  obtain ⟨_, ⟨-, rfl⟩, -, -, rfl⟩ := h
  rfl

theorem Effect.save (written : w'.vaults = w.vaults.set vault state)
    (reached : (loadVaultOrDefault w vault).apply (termsOf env w) event = state)
    (setup : SameSetup w w') : Effect env vault event w w' := by
  refine ⟨fun v => ?_, setup⟩
  rw [written, Store.lookup_set, reached]

theorem loadVaultOrDefault_of_lookup (h : w.vaults.lookup vault = some state) :
    loadVaultOrDefault w vault = state := by
  unfold loadVaultOrDefault Store.getD
  rw [h]
  rfl

/-- What both charging entry points do: the fee is the one of the event, and it is recorded. -/
structure Charges (env : LedgerEnv engine) (vault : Address) (event : Event) (fee : ℤ)
    (w w' : World Address) : Prop where
  applies : Account.Applies (termsOf env w) ⟨w.vaults.lookup vault, {}⟩ event
  effect : Effect env vault event w w'
  logged : Logged vault fee w w'

theorem accrueManagementFee_ok (h : accrueManagementFee env vault aum w = .ok (fee, w')) :
    fee = (termsOf env w).accrued (loadVaultOrDefault w vault).lastAccrual aum ∧
      Charges env vault (.accrual aum) fee w w' := by
  simp only [accrueManagementFee, reentrancyEnter, loadConfig, loadVault, checkedAdd, ok_iff,
    Prod.mk.injEq] at h
  obtain ⟨_, ⟨_, -, rfl⟩, _, hc, state, hs, charged, hfee, _, ⟨range, rfl⟩, _, record,
    rfl, rfl⟩ := h
  have hfee : charged = (termsOf env w).accrued state.lastAccrual aum := by
    rw [termsOf, hc]
    unfold managementFee at hfee
    unfold Terms.accrued
    split_ifs at hfee ⊢
    · exact (pure_ok_iff.1 hfee).symm
    · simp only [ok_iff] at hfee
      obtain ⟨_, ⟨-, rfl⟩, _, ⟨-, rfl⟩, -, -, rfl⟩ := hfee
      rfl
  have nonneg : 0 ≤ charged := hfee ▸ Terms.accrued_nonneg _ _ _
  obtain ⟨logged, vaults, setup⟩ := recordFee_ok nonneg record
  have load : loadVaultOrDefault w vault = state := loadVaultOrDefault_of_lookup hs
  refine ⟨load ▸ hfee, ?_, .save vaults ?_ ⟨setup.1, setup.2, setup.3, setup.4⟩, logged⟩
  · refine ⟨by rw [hs]; rfl, ?_⟩
    rw [hs]
    exact hfee ▸ range
  · rw [load, hfee]
    rfl

/-- The three branches of a crystallization: a fee above the mark, a clawback, or nothing. -/
theorem crystallizeAt_ok {config : FeeConfig Address} (hc : w.config = some config)
    (hs : w.vaults.lookup vault = some state)
    (h : crystallizeAt env vault nav config state w = .ok (fee, w')) :
    fee = (termsOf env w).charge (state.profit nav) ∧ Logged vault fee w w' ∧
      (state.highWaterMark < nav → IsI128 (state.feesPaid + fee)) ∧
      Effect env vault (.crystallization nav) w w' := by
  have rate (size : ℤ) : rateFor w config size = (termsOf env w).rate size := by
    unfold rateFor termsOf
    rw [hc]
    rfl
  have load := loadVaultOrDefault_of_lookup hs
  unfold crystallizeAt at h
  split_ifs at h with above below
  · simp only [checkedAdd, ok_iff, Prod.mk.injEq] at h
    obtain ⟨_, ⟨-, rfl⟩, charged, hfee, _, ⟨range, rfl⟩, _, record, rfl, rfl⟩ := h
    have profit : state.profit nav = nav - state.highWaterMark := max_eq_right (by omega)
    have hfee : charged = (termsOf env w).charge (state.profit nav) := by
      rw [applyBps_ok hfee, rate, profit]
      rfl
    obtain ⟨logged, vaults, setup⟩ :=
      recordFee_ok (hfee ▸ Terms.charge_nonneg _ (state.profit_nonneg nav)) record
    refine ⟨hfee, logged, fun _ => range, .save vaults ?_ ⟨setup.1, setup.2, setup.3, setup.4⟩⟩
    rw [load, hfee]
    exact if_pos above
  · simp only [ok_iff] at h
    obtain ⟨_, ⟨-, rfl⟩, clawback, hclaw, rfl, rfl⟩ := h
    have none := VaultState.profit_eq_zero above
    have loss : state.loss nav = state.lastCrystallized - nav := by
      rw [VaultState.loss, if_neg above, max_eq_right (by omega)]
    have hclaw : clawback = (termsOf env w).charge (state.loss nav) := by
      rw [applyBps_ok hclaw, rate, loss]
      rfl
    refine ⟨by rw [none, Terms.charge_zero], .inl ⟨rfl, rfl, rfl⟩, fun h => absurd h above,
      .save rfl ?_ ⟨rfl, rfl, rfl, rfl⟩⟩
    rw [load, hclaw]
    exact (if_neg above).trans (if_pos below)
  · obtain ⟨rfl, rfl⟩ := h
    have none := VaultState.profit_eq_zero above
    have unchanged : state.apply (termsOf env w) (.crystallization nav) = state :=
      (if_neg above).trans (if_neg below)
    refine ⟨by rw [none, Terms.charge_zero], .inl ⟨rfl, rfl, rfl⟩, fun h => absurd h above,
      fun v => ?_, ⟨rfl, rfl, rfl, rfl⟩⟩
    rw [load, unchanged]
    split_ifs with hv
    · rw [hv, hs]
    · rfl

theorem crystallize_ok (h : crystallize env vault nav w = .ok (fee, w')) :
    fee = (termsOf env w).charge ((loadVaultOrDefault w vault).profit nav) ∧
      Charges env vault (.crystallization nav) fee w w' := by
  simp only [crystallize, reentrancyEnter, loadConfig, loadVault, ok_iff] at h
  obtain ⟨_, ⟨_, -, rfl⟩, _, hc, _, hs, ⟨_, _⟩, body, rfl, rfl⟩ := h
  obtain ⟨hfee, logged, range, effect⟩ := crystallizeAt_ok hc hs body
  have setup := effect.setup
  refine ⟨(loadVaultOrDefault_of_lookup hs) ▸ hfee, ?_,
    ⟨effect.lookup, ⟨setup.1, setup.2, setup.3, setup.4⟩⟩, logged⟩
  refine ⟨by rw [hs]; rfl, ?_⟩
  rw [hs]
  exact hfee ▸ range

theorem computeFees_ok (h : computeFees env vault nav w = .ok (b, w')) :
    ∃ w₁ managementFee performanceFee rebate,
      accrueManagementFee env vault nav w = .ok (managementFee, w₁) ∧
      crystallize env vault nav w₁ = .ok (performanceFee, w') ∧
      rebateForStake w'.discountTiers (loadStakeOrDefault w' vault).staked = .ok rebate ∧
      b.total = managementFee + performanceFee ∧
      b.discount = (b.total * rebate).tdiv bpsDenominator ∧
      b.netTotal = b.total - b.discount ∧ b.netTotal = b.vaultShare + b.protocolShare := by
  simp only [computeFees, checkedAdd, ok_iff] at h
  obtain ⟨⟨m, w₁⟩, accrue, ⟨p, _⟩, crystal, _, -, _, ⟨-, rfl⟩, rebate, hr, _, hd, _, ⟨-, rfl⟩,
    _, split, rfl, rfl⟩ := h
  exact ⟨w₁, m, p, rebate, accrue, crystal, hr, rfl, applyBps_ok hd, rfl, splitFee_ok split⟩

/-! ## The account of a vault along a run -/

def Call.events (v : Address) : Call Address → List Event
  | .recordDeposit vault amount => if v = vault then [.deposit amount] else []
  | .recordWithdrawal vault amount => if v = vault then [.withdrawal amount] else []
  | .accrueManagementFee vault aum => if v = vault then [.accrual aum] else []
  | .crystallize vault nav => if v = vault then [.crystallization nav] else []
  | .computeFees vault nav => if v = vault then [.accrual nav, .crystallization nav] else []
  | .computeFeesSponsored vault _ nav =>
      if v = vault then [.accrual nav, .crystallization nav] else []
  | _ => []

def Call.charged : Call Address → Option Address
  | .accrueManagementFee vault _ => some vault
  | .crystallize vault _ => some vault
  | .computeFees vault _ => some vault
  | .computeFeesSponsored vault _ _ => some vault
  | _ => none

structure Watched (Address : Type) where
  world : World Address
  journal : Journal

def accountOf (v : Address) (w : World Address) (journal : Journal) : Account :=
  ⟨w.vaults.lookup v, journal⟩

def accountAfter (v : Address) (s : Watched Address) (action : Action engine) : Account :=
  (action.call.events v).foldl (Account.next (termsOf action.env s.world))
    (accountOf v s.world s.journal)

/-- A step of the engine; its events for `v` are noted in the journal. -/
def Watching (engine v : Address) (s : Watched Address) (action : Action engine)
    (s' : Watched Address) : Prop :=
  Step engine s.world action s'.world ∧ s'.journal = (accountAfter v s action).journal

/-- The state of `v` goes through the events, and each of them applies. -/
structure Follows (env : LedgerEnv engine) (v : Address) (j : Journal) (events : List Event)
    (w w' : World Address) : Prop where
  state : w'.vaults.lookup v = (events.foldl (Account.next (termsOf env w)) (accountOf v w j)).state
  applies : Account.Along Account.Applies (termsOf env w) (accountOf v w j) events

variable {s s' : Watched Address} {action : Action engine} {actions : List (Action engine)}
  {cond : Terms → Account → Event → Prop} {P : Account → Prop}

theorem Follows.none (h : w'.vaults.lookup v = w.vaults.lookup v) :
    Follows env v j [] w w' := ⟨h, trivial⟩

theorem Effect.follows (effect : Effect env vault event w w')
    (applies : Account.Applies (termsOf env w) (accountOf vault w j) event) :
    Follows env vault j [event] w w' :=
  ⟨(effect.lookup vault).trans (if_pos rfl), applies, trivial⟩

theorem Effect.follows_ite (effect : Effect env vault event w w')
    (applies : Account.Applies (termsOf env w) (accountOf vault w j) event) :
    Follows env v j (if v = vault then [event] else []) w w' := by
  split_ifs with h
  · rw [h]
    exact effect.follows applies
  · exact .none ((effect.lookup v).trans (if_neg h))

omit [DecidableEq Address] in
theorem termsOf_of_sameSetup (setup : SameSetup w w') : termsOf env w' = termsOf env w := by
  unfold termsOf
  rw [setup.config, setup.perfTiers]

theorem Charges.applies_journal (charges : Charges env vault event fee w w') (j : Journal) :
    Account.Applies (termsOf env w) (accountOf vault w j) event := by
  have applies := charges.applies
  cases event <;> exact applies

theorem computeFees_follows (h : computeFees env vault nav w = .ok (b, w')) :
    Follows env v j (if v = vault then [.accrual nav, .crystallization nav] else []) w w' := by
  obtain ⟨w₁, m, p, _, accrue, crystal, -⟩ := computeFees_ok h
  obtain ⟨-, first⟩ := accrueManagementFee_ok accrue
  obtain ⟨-, second⟩ := crystallize_ok crystal
  split_ifs with hv
  · subst hv
    have between := first.effect.follows (first.applies_journal j)
    have after := second.effect.follows (second.applies_journal
      ((accountOf v w j).next (termsOf env w) (.accrual nav)).journal)
    have account : accountOf v w₁ ((accountOf v w j).next (termsOf env w) (.accrual nav)).journal =
        (accountOf v w j).next (termsOf env w) (.accrual nav) :=
      congrArg (Account.mk · _) between.state
    obtain ⟨state, applies⟩ := after
    rw [termsOf_of_sameSetup first.effect.setup, account] at state applies
    exact ⟨state, between.applies.1, applies⟩
  · apply Follows.none
    rw [second.effect.lookup, if_neg hv, first.effect.lookup, if_neg hv]

variable {call : Call Address} {reported : ℤ}

theorem exec_uncharged (none : call.charged = none) (h : exec env w call = .ok (reported, w')) :
    reported = 0 ∧ w'.feeSeq = w.feeSeq ∧ w'.feeHistory = w.feeHistory ∧
      Follows env v j (call.events v) w w' := by
  cases call <;>
    simp only [exec, setFeeConfig, setDiscountTiers, setPerfTiers, stake, unstake, setFeeSponsor,
      map_ok_iff, ok_iff] at h
  case setFeeConfig =>
    obtain ⟨_, ⟨_, -, _, -, _, -, rfl⟩, rfl, rfl⟩ := h
    exact ⟨rfl, rfl, rfl, .none rfl⟩
  case setDiscountTiers | setPerfTiers =>
    obtain ⟨_, ⟨_, -, _, -, rfl⟩, rfl, rfl⟩ := h
    exact ⟨rfl, rfl, rfl, .none rfl⟩
  case stake =>
    obtain ⟨_, ⟨_, -, _, -, _, -, _, -, _, -, rfl⟩, rfl, rfl⟩ := h
    exact ⟨rfl, rfl, rfl, .none rfl⟩
  case unstake =>
    obtain ⟨_, ⟨_, -, _, -, _, -, _, -, _, -, _, -, rfl⟩, rfl, rfl⟩ := h
    exact ⟨rfl, rfl, rfl, .none rfl⟩
  case setFeeSponsor =>
    obtain ⟨_, ⟨_, -, rfl⟩, rfl, rfl⟩ := h
    exact ⟨rfl, rfl, rfl, .none rfl⟩
  case recordDeposit =>
    obtain ⟨_, h, rfl, rfl⟩ := h
    simp only [recordDeposit, checkedAdd, ok_iff, not_le] at h
    obtain ⟨_, -, _, positive, _, ⟨-, rfl⟩, rfl⟩ := h
    exact ⟨rfl, rfl, rfl, Effect.follows_ite (.save rfl rfl ⟨rfl, rfl, rfl, rfl⟩) positive⟩
  case recordWithdrawal vault _ =>
    obtain ⟨_, h, rfl, rfl⟩ := h
    simp only [recordWithdrawal, ok_iff, not_le, not_lt] at h
    obtain ⟨_, -, _, positive, _, covered, _, ⟨-, rfl⟩, rfl⟩ := h
    refine ⟨rfl, rfl, rfl, Effect.follows_ite (.save rfl rfl ⟨rfl, rfl, rfl, rfl⟩) ⟨positive, ?_⟩⟩
    -- a missing vault has no principal to withdraw
    change (w.vaults.lookup vault).isSome = true
    cases stored : w.vaults.lookup vault with
    | some => rfl
    | none =>
      unfold loadVaultOrDefault Store.getD at covered
      rw [stored] at covered
      exact absurd covered (not_le.2 positive)
  case accrueManagementFee | crystallize | computeFees | computeFeesSponsored => cases none

theorem exec_follows (h : exec env w call = .ok (reported, w')) :
    Follows env v j (call.events v) w w' := by
  cases charged : call.charged with
  | none => exact (exec_uncharged charged h).2.2.2
  | some vault =>
    cases call with
    | accrueManagementFee =>
      obtain ⟨-, charges⟩ := accrueManagementFee_ok h
      exact charges.effect.follows_ite (charges.applies_journal j)
    | crystallize =>
      obtain ⟨-, charges⟩ := crystallize_ok h
      exact charges.effect.follows_ite (charges.applies_journal j)
    | computeFees =>
      simp only [exec, map_ok_iff] at h
      obtain ⟨_, h, -, rfl⟩ := h
      exact computeFees_follows h
    | computeFeesSponsored =>
      simp only [exec, computeFeesSponsored, map_ok_iff, ok_iff] at h
      obtain ⟨_, ⟨_, -, ⟨b, _⟩, h, rfl⟩, -, rfl⟩ := h
      obtain ⟨state, applies⟩ := computeFees_follows (v := v) (j := j) h
      refine ⟨?_, applies⟩
      split_ifs <;> exact state
    | _ => cases charged

/-- The engine refines the account: after a step, the account of `v` is the one that the events of
the call lead to, and every event applied where it happened. -/
theorem watching_account (step : Watching engine v s action s') :
    accountOf v s'.world s'.journal = accountAfter v s action ∧
      Account.Along Account.Applies (termsOf action.env s.world) (accountOf v s.world s.journal)
        (action.call.events v) := by
  obtain ⟨state, applies⟩ := exec_follows (v := v) (j := s.journal) step.1
  refine ⟨?_, applies⟩
  unfold accountOf accountAfter
  rw [state, step.2]
  rfl

/-- Every event of a call meets `cond` in the account that it finds. -/
def Meets (v : Address) (cond : Terms → Account → Event → Prop) (s : Watched Address)
    (action : Action engine) : Prop :=
  Account.Along cond (termsOf action.env s.world) (accountOf v s.world s.journal)
    (action.call.events v)

theorem watching_keep
    (keep : ∀ a event, Account.Applies (termsOf action.env s.world) a event → P a →
      P (a.next (termsOf action.env s.world) event)) (h : P (accountOf v s.world s.journal))
    (step : Watching engine v s action s') : P (accountOf v s'.world s'.journal) := by
  obtain ⟨account, applies⟩ := watching_account step
  rw [account]
  exact Account.Along.invariant (fun a event applies _ => keep a event applies) h applies
    (Account.Along.true _ _ _)

/-- The calls are no event, one event, or an accrual followed by a crystallization. -/
theorem Call.events_cases (v : Address) (call : Call Address) :
    call.events v = [] ∨ (∃ event, call.events v = [event]) ∨
      ∃ nav, call.events v = [.accrual nav, .crystallization nav] := by
  unfold Call.events
  split <;> (try split_ifs) <;> simp

/-- If an event leads from an account with `P` to one with `P` exactly when it meets `cond`, so does
a step of the engine. -/
theorem watching_exact {inv : Account → Prop}
    (keep : ∀ terms a event, Account.Applies terms a event → inv a → inv (a.next terms event))
    (exact_event : ∀ terms a event, Account.Applies terms a event → inv a → P a →
      (P (a.next terms event) ↔ cond terms a event)) (between : ∀ terms a nav, inv a → P a →
      P ((a.next terms (.accrual nav)).next terms (.crystallization nav)) →
        P (a.next terms (.accrual nav))) (hinv : inv (accountOf v s.world s.journal))
    (hP : P (accountOf v s.world s.journal)) (step : Watching engine v s action s') :
    P (accountOf v s'.world s'.journal) ↔ Meets v cond s action := by
  obtain ⟨account, applies⟩ := watching_account step
  rw [account]
  unfold accountAfter Meets
  rcases action.call.events_cases v with none | ⟨event, one⟩ | ⟨nav, two⟩
  · rw [none]
    exact iff_of_true hP trivial
  · rw [one] at applies ⊢
    exact (exact_event _ _ _ applies.1 hinv hP).trans (iff_of_eq (and_true _)).symm
  · rw [two] at applies ⊢
    have first := exact_event _ _ _ applies.1 hinv hP
    have second := fun h => exact_event _ _ _ applies.2.1 (keep _ _ _ applies.1 hinv) h
    constructor
    · intro after
      have mid := between _ _ _ hinv hP after
      exact ⟨first.1 mid, (second mid).1 after, trivial⟩
    · rintro ⟨meets₁, meets₂, -⟩
      exact (second (first.2 meets₁)).2 meets₂

def Fresh (engine : Address) (s : Watched Address) : Prop :=
  Initial engine s.world ∧ s.journal = {}

theorem Fresh.account (fresh : Fresh engine s) (v : Address) :
    accountOf v s.world s.journal = ⟨none, {}⟩ := by
  obtain ⟨⟨_, _, _, _, h⟩, journal⟩ := fresh
  simp only [initializeEngine, ok_iff] at h
  obtain ⟨_, -, _, -, h⟩ := h
  rw [journal, ← h]
  rfl

/-! ## Replaying calls -/

instance decidableAlong {cond : Terms → Account → Event → Prop}
    [∀ terms a event, Decidable (cond terms a event)] (terms : Terms) :
    ∀ (a : Account) (events : List Event), Decidable (Account.Along cond terms a events)
  | _, [] => isTrue trivial
  | a, event :: rest =>
    have : Decidable (Account.Along cond terms (a.next terms event) rest) :=
      decidableAlong terms (a.next terms event) rest
    inferInstanceAs (Decidable (_ ∧ _))

instance {v : Address} {cond : Terms → Account → Event → Prop}
    [∀ terms a event, Decidable (cond terms a event)] (s : Watched Address)
    (action : Action engine) : Decidable (Meets v cond s action) :=
  inferInstanceAs (Decidable (Account.Along _ _ _ _))

/-- Run calls one after another, with the journal of `v`; a call that reports another fee than it
should, or fails `check`, traps. -/
def replay (v : Address) (check : Watched Address → Action engine → Bool) :
    List (Action engine) → Watched Address → Outcome Error (Watched Address)
  | [], s => pure s
  | action :: rest, s => do
    let (reported, world) ← exec action.env s.world action.call
    if reported = action.reported ∧ check s action = true then
      replay v check rest ⟨world, (accountAfter v s action).journal⟩
    else .error .trap

theorem replay_run {check : Watched Address → Action engine → Bool}
    (h : replay v check actions s = .ok s') :
    Run (Guarded (fun s a => check s a = true) (Watching engine v)) s actions s' := by
  induction actions generalizing s with
  | nil =>
    obtain rfl := pure_ok_iff.1 h
    exact .nil
  | cons action _ ih =>
    obtain ⟨⟨_, world⟩, first, h⟩ := bind_ok_iff.1 h
    dsimp only at h
    split_ifs at h with checked
    rw [checked.1] at first
    have step : Watching engine v s action ⟨world, _⟩ := ⟨first, rfl⟩
    exact (ih h).cons ⟨checked.2, step⟩

end Contract

def signedAt (timestamp : ℕ) : LedgerEnv 0 := ⟨⟨0, fun a => a != 0, zero_unsigned⟩, timestamp⟩

/-- Management fees of 2 % and performance fees of 10 %, shared equally. -/
def schedule : FeeConfig ℕ :=
  { managementFeeBps := 200, performanceFeeBps := 1000, protocolShareBps := 5000
    vaultFeeRecipient := 2, treasury := 3 }

/-- The calls on an engine just initialized with this schedule, with the journal of vault 5. -/
def scenario (check : Watched ℕ → Action 0 → Bool) (actions : List (Action 0)) :
    Outcome Error (Watched ℕ) := do
  let w ← initializeEngine (signedAt 0) 1 9 { tokens := fun _ _ => 1000 }
  replay 5 check (⟨signedAt 0, .setFeeConfig 1 schedule, 0⟩ :: actions) ⟨w, {}⟩

theorem scenario_run {check : Watched ℕ → Action 0 → Bool} {actions : List (Action 0)}
    {s : Watched ℕ} (h : scenario check actions = .ok s) :
    ∃ s₀, Fresh 0 s₀ ∧ Run (Guarded (fun s a => check s a = true) (Watching 0 5)) s₀
      (⟨signedAt 0, .setFeeConfig 1 schedule, 0⟩ :: actions) s := by
  obtain ⟨w, init, h⟩ := bind_ok_iff.1 h
  exact ⟨⟨w, {}⟩, ⟨⟨signedAt 0, 1, 9, _, init⟩, rfl⟩, replay_run h⟩

end FeeEngine
