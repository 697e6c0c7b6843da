import Perigee.FeeEngine.Effects

/-!
# Performance fees and clawbacks

Performance fees should be charged on trading results only.  The mark is compared with the NAV, but
a deposit raises it through the principal only: after a gain a deposit is charged in part as profit.
A clawback is computed from the loss since the last crystallization, whatever was charged before; it
is covered exactly when `ClawbackCovered` says so.
-/

namespace FeeEngine

open Soroban

namespace Account

variable {terms : Terms} {a : Account} {event : Event}

/-! ## Profit charged -/

/-- The value of the vault after a deposit is at most the mark, or the principal. -/
def DepositBelowMark (_ : Terms) (a : Account) : Event → Prop
  | .deposit amount =>
      a.journal.value + amount ≤ max a.vault.highWaterMark (a.vault.principal + amount)
  | _ => True

instance (terms : Terms) (a : Account) :
    (event : Event) → Decidable (DepositBelowMark terms a event)
  | .deposit _ => inferInstanceAs (Decidable (_ ≤ _))
  | .withdrawal _ => isTrue trivial
  | .accrual _ => isTrue trivial
  | .crystallization _ => isTrue trivial

/-- The profit charged is covered by trading results, and so is the value above the mark, by those
not charged yet. -/
structure ProfitFromGains (a : Account) : Prop where
  charged : a.journal.profitCharged ≤ a.journal.gains
  value : a.journal.value ≤
    a.vault.highWaterMark + (a.journal.gains - a.journal.profitCharged)

theorem ProfitFromGains.next (applies : Applies terms a event)
    (below : DepositBelowMark terms a event) (h : ProfitFromGains a) :
    ProfitFromGains (a.next terms event) := by
  obtain ⟨charged, value⟩ := h
  cases event with
  | deposit =>
    refine ⟨charged, ?_⟩
    rw [vault_next, VaultState.highWaterMark_deposit]
    simp only [journal_next, Journal.note]
    change _ ≤ max _ _ at below
    omega
  | withdrawal =>
    refine ⟨charged, le_trans ?_ value⟩
    have positive := applies.1
    simp only [journal_next, Journal.note]
    omega
  | accrual => exact ⟨charged, value⟩
  | crystallization nav =>
    -- the profit is at most the gain of this period plus what earlier gains left uncharged
    have profit : a.vault.profit nav = max 0 (nav - a.vault.highWaterMark) := rfl
    refine ⟨?_, ?_⟩
    · simp only [journal_next, Journal.note]
      omega
    · rw [vault_next, VaultState.highWaterMark_crystallization]
      simp only [journal_next, Journal.note]
      omega

/-! ## Clawbacks -/

/-- A loss is so small that the fee on it is at most what is left of the fees charged. -/
def ClawbackCovered (terms : Terms) (a : Account) : Event → Prop
  | .crystallization nav =>
      a.vault.loss nav * terms.rate (a.vault.loss nav) <
        bpsDenominator * (a.journal.performanceFees - a.journal.clawedBack + 1)
  | _ => True

instance (terms : Terms) (a : Account) : (event : Event) → Decidable (ClawbackCovered terms a event)
  | .deposit _ => isTrue trivial
  | .withdrawal _ => isTrue trivial
  | .accrual _ => isTrue trivial
  | .crystallization _ => inferInstanceAs (Decidable (_ < _))

/-- The fees paid include what was charged and not clawed back. -/
structure FeesAccounted (a : Account) : Prop where
  range : a.vault.feesPaid < 2 ^ 127
  paid : a.journal.performanceFees - a.journal.clawedBack ≤ a.vault.feesPaid

def FeesKept (a : Account) : Prop :=
  0 ≤ a.vault.feesPaid ∧ a.journal.clawedBack ≤ a.journal.performanceFees

instance (a : Account) : Decidable (FeesKept a) := inferInstanceAs (Decidable (_ ∧ _))

theorem FeesAccounted.next (applies : Applies terms a event) (h : FeesAccounted a) :
    FeesAccounted (a.next terms event) := by
  obtain ⟨range, paid⟩ := h
  cases event with
  | deposit amount =>
    have same := VaultState.feesPaid_deposit terms a.vault amount
    exact ⟨same ▸ range, same ▸ paid⟩
  | withdrawal => exact ⟨range, paid⟩
  | accrual aum =>
    have fee := terms.accrued_nonneg a.vault.lastAccrual aum
    exact ⟨applies.2.2, le_trans paid (le_add_of_nonneg_right fee)⟩
  | crystallization nav =>
    have clawback := terms.charge_nonneg (a.vault.loss_nonneg nav)
    refine ⟨?_, ?_⟩
    · rw [vault_next, VaultState.feesPaid_crystallization]
      split_ifs with above
      · exact (applies.2 above).2
      · unfold saturateI128
        omega
      · exact range
    · rw [vault_next, VaultState.feesPaid_crystallization]
      simp only [journal_next, Journal.note]
      split_ifs with above below
      · omega
      · rw [VaultState.profit_eq_zero above, Terms.charge_zero]
        unfold saturateI128
        omega
      · rw [VaultState.profit_eq_zero above, Terms.charge_zero]
        omega

/-- What was charged and not clawed back is part of the fees paid, so the second bound is enough. -/
theorem FeesAccounted.kept_iff (h : FeesAccounted a) :
    FeesKept a ↔ a.journal.clawedBack ≤ a.journal.performanceFees := by
  have paid := h.paid
  exact ⟨fun kept => kept.2, fun bound => ⟨by omega, bound⟩⟩

/-- An event leaves no fee clawed back that was not charged exactly if it meets the condition. -/
theorem feesKept_next_iff (applies : Applies terms a event) (inv : FeesAccounted a)
    (kept : FeesKept a) : FeesKept (a.next terms event) ↔ ClawbackCovered terms a event := by
  rw [(inv.next applies).kept_iff]
  have bound := kept.2
  cases event with
  | deposit | withdrawal | accrual => exact iff_of_true bound trivial
  | crystallization nav =>
    simp only [ClawbackCovered, journal_next, Journal.note]
    rw [← terms.charge_le_iff (a.vault.loss_nonneg nav)]
    by_cases above : a.vault.highWaterMark < nav
    · have fee := terms.charge_nonneg (a.vault.profit_nonneg nav)
      rw [VaultState.loss_eq_zero above, Terms.charge_zero]
      omega
    · rw [VaultState.profit_eq_zero above, Terms.charge_zero]
      omega

end Account

/-! ## Runs of the engine -/

section Contract

variable {Address : Type} [DecidableEq Address] {engine v : Address} {s₀ s : Watched Address}
  {actions : List (Action engine)}

/-- In a run whose deposits do not lift the value of the vault above the mark, performance fees are
charged on trading results only. -/
theorem profitCharged_le_gains (fresh : Fresh engine s₀)
    (run : Run (Guarded (Meets v Account.DepositBelowMark) (Watching engine v)) s₀ actions s) :
    s.journal.profitCharged ≤ s.journal.gains := by
  have start : Account.ProfitFromGains (accountOf v s₀.world s₀.journal) := by
    rw [fresh.account]
    exact ⟨le_rfl, le_rfl⟩
  refine (run.invariant (P := fun s => Account.ProfitFromGains (accountOf v s.world s.journal))
    start fun _ _ _ ih step => ?_).charged
  obtain ⟨account, applies⟩ := watching_account step.2
  rw [account]
  exact Account.Along.invariant (fun _ _ applies below h => h.next applies below) ih applies step.1

def FeesKept (v : Address) (s : Watched Address) : Prop :=
  (accountOf v s.world s.journal).FeesKept

instance (v : Address) (s : Watched Address) : Decidable (FeesKept v s) :=
  inferInstanceAs (Decidable (Account.FeesKept _))

/-- In a run whose losses all meet the condition, the fees paid are not negative and no more is
clawed back than was charged; these are exactly the runs through such states. -/
theorem feesKept_run_iff (fresh : Fresh engine s₀) :
    (Run (Guarded (Meets v Account.ClawbackCovered) (Watching engine v)) s₀ actions s →
        FeesKept v s) ∧
      (Run (Guarded (Meets v Account.ClawbackCovered) (Watching engine v)) s₀ actions s ↔
        Run (Into (FeesKept v) (Watching engine v)) s₀ actions s) := by
  have start : (accountOf v s₀.world s₀.journal).FeesAccounted ∧ FeesKept v s₀ := by
    unfold FeesKept
    rw [fresh.account]
    exact ⟨⟨by decide, by decide⟩, by decide, by decide⟩
  refine Run.guarded_iff_into (fun s => (accountOf v s.world s.journal).FeesAccounted) start
    (fun _ _ _ inv step => ?_) fun _ _ _ inv kept step => ?_
  · exact watching_keep (fun _ _ applies inv => inv.next applies) inv step
  · refine watching_exact (fun _ _ _ applies inv => inv.next applies)
      (fun _ _ _ applies inv kept => Account.feesKept_next_iff applies inv kept)
      (fun terms a _ inv kept _ => ?_) inv kept step
    -- an accrual charges no performance fee and claws nothing back
    exact ⟨add_nonneg kept.1 (terms.accrued_nonneg _ _), kept.2⟩

end Contract

/-! ## Scenarios -/

/-- A gain, a loss, and a deposit that makes up for the loss before the next gain. -/
def refilled : Outcome Error (Watched ℕ) :=
  scenario (fun s a => decide (Meets 5 Account.DepositBelowMark s a))
    [⟨signedAt 0, .recordDeposit 5 100, 0⟩, ⟨signedAt 0, .crystallize 5 150, 5⟩,
      ⟨signedAt 0, .crystallize 5 120, 0⟩, ⟨signedAt 0, .recordDeposit 5 30, 0⟩,
      ⟨signedAt 0, .crystallize 5 200, 5⟩]

theorem refilled_charged_gains :
    ∃ s, refilled = .ok s ∧ 0 < s.journal.profitCharged ∧
      s.journal.profitCharged ≤ s.journal.gains := by
  obtain ⟨s, h, positive⟩ : ∃ s, refilled = .ok s ∧ 0 < s.journal.profitCharged := by decide +kernel
  obtain ⟨_, fresh, run⟩ := scenario_run h
  exact ⟨s, h, positive,
    profitCharged_le_gains fresh (run.mono fun _ _ _ step => ⟨of_decide_eq_true step.1, step.2⟩)⟩

/-- A gain of 50 is charged; then a deposit of 100 raises the mark to the principal of 200 while the
vault is worth 250, and the next crystallization charges the missing 50 as profit. -/
theorem deposit_charged_as_profit :
    ∃ s₀ actions s, Fresh 0 s₀ ∧ Run (Watching 0 5) s₀ actions s ∧
      s.journal.gains < s.journal.profitCharged := by
  obtain ⟨s, h, more⟩ : ∃ s, scenario (fun _ _ => true)
      [⟨signedAt 0, .recordDeposit 5 100, 0⟩, ⟨signedAt 0, .crystallize 5 150, 5⟩,
        ⟨signedAt 0, .recordDeposit 5 100, 0⟩, ⟨signedAt 0, .crystallize 5 250, 5⟩] = .ok s ∧
      s.journal.gains < s.journal.profitCharged := by
    decide +kernel
  obtain ⟨s₀, fresh, run⟩ := scenario_run h
  exact ⟨s₀, _, s, fresh, run.mono fun _ _ _ step => step.2, more⟩

/-- A gain, and a smaller loss after it. -/
def givenBack : Outcome Error (Watched ℕ) :=
  scenario (fun s a => decide (Meets 5 Account.ClawbackCovered s a))
    [⟨signedAt 0, .recordDeposit 5 1000, 0⟩, ⟨signedAt 0, .crystallize 5 1500, 50⟩,
      ⟨signedAt 0, .crystallize 5 1200, 0⟩]

theorem givenBack_feesKept : ∃ s, givenBack = .ok s ∧ 0 < s.journal.clawedBack ∧ FeesKept 5 s := by
  obtain ⟨s, h, positive⟩ : ∃ s, givenBack = .ok s ∧ 0 < s.journal.clawedBack := by decide +kernel
  obtain ⟨_, fresh, run⟩ := scenario_run h
  exact ⟨s, h, positive,
    (feesKept_run_iff fresh).1 (run.mono fun _ _ _ step => ⟨of_decide_eq_true step.1, step.2⟩)⟩

/-- A loss on the first deposit is clawed back although nothing was charged. -/
theorem clawback_without_charge :
    ∃ s₀ actions s, Fresh 0 s₀ ∧ Run (Watching 0 5) s₀ actions s ∧ ¬ FeesKept 5 s := by
  obtain ⟨s, h, negative⟩ : ∃ s, scenario (fun _ _ => true)
      [⟨signedAt 0, .recordDeposit 5 1000, 0⟩, ⟨signedAt 0, .crystallize 5 500, 0⟩] = .ok s ∧
      ¬ FeesKept 5 s := by
    decide +kernel
  obtain ⟨s₀, fresh, run⟩ := scenario_run h
  exact ⟨s₀, _, s, fresh, run.mono fun _ _ _ step => step.2, negative⟩

end FeeEngine
