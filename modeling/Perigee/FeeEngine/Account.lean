import Perigee.FeeEngine.Contract

/-!
# The account of one vault

What the engine does to one vault is a sequence of four kinds of events, charged on the terms in
force at the time.  An `Account` is the stored state of a vault together with a journal of what an
observer needs to judge the charges.
-/

namespace FeeEngine

open Soroban

inductive Event where
  | deposit (amount : ℤ)
  | withdrawal (amount : ℤ)
  | accrual (aum : ℤ)
  | crystallization (nav : ℤ)

structure Terms where
  now : ℕ
  managementFeeBps : ℕ
  /-- The performance-fee rate, by the size of the profit or the loss. -/
  rate : ℤ → ℕ

/-- The fee on a profit, or the clawback on a loss, of the given size. -/
def Terms.charge (terms : Terms) (size : ℤ) : ℤ := (size * terms.rate size).tdiv bpsDenominator

def Terms.accrued (terms : Terms) (since : ℕ) (aum : ℤ) : ℤ :=
  if terms.now - since = 0 ∨ aum ≤ 0 then 0
  else (aum * terms.managementFeeBps * (terms.now - since : ℕ)).tdiv
    (bpsDenominator * secondsPerYear)

/-- The profit above the mark, on which a performance fee is charged. -/
def VaultState.profit (state : VaultState) (nav : ℤ) : ℤ := max 0 (nav - state.highWaterMark)

/-- The loss since the last crystallization, on which a fee is clawed back. -/
def VaultState.loss (state : VaultState) (nav : ℤ) : ℤ :=
  if state.highWaterMark < nav then 0 else max 0 (state.lastCrystallized - nav)

def VaultState.apply (terms : Terms) (state : VaultState) : Event → VaultState
  | .deposit amount =>
    let principal := state.principal + amount
    let raised := if state.highWaterMark < principal
      then { state with principal, highWaterMark := principal, lastCrystallized := principal }
      else { state with principal }
    { raised with lastAccrual := terms.now }
  | .withdrawal amount => { state with principal := state.principal - amount }
  | .accrual aum =>
    { state with
      lastAccrual := terms.now
      feesPaid := state.feesPaid + terms.accrued state.lastAccrual aum }
  | .crystallization nav =>
    if state.highWaterMark < nav then
      { state with
        highWaterMark := nav
        lastCrystallized := nav
        feesPaid := state.feesPaid + terms.charge (state.profit nav) }
    else if nav < state.lastCrystallized then
      { state with
        lastCrystallized := nav
        feesPaid := saturateI128 (state.feesPaid - terms.charge (state.loss nav)) }
    else state

structure Journal where
  /-- The NAV of the last crystallization plus the net flows recorded since. -/
  value : ℤ := 0
  /-- The sum of the positive trading results: NAV less `value`, at each crystallization. -/
  gains : ℤ := 0
  /-- The total profit on which performance fees were charged. -/
  profitCharged : ℤ := 0
  performanceFees : ℤ := 0
  clawedBack : ℤ := 0
  /-- The time of the first deposit. -/
  opened : Option ℕ := none
  /-- The intervals of time used by the accruals. -/
  intervals : List (ℕ × ℕ) := []

def Journal.note (terms : Terms) (state : VaultState) (j : Journal) : Event → Journal
  | .deposit amount => { j with
      value := j.value + amount
      opened := some (j.opened.getD terms.now) }
  | .withdrawal amount => { j with value := j.value - amount }
  | .accrual _ => { j with intervals := (state.lastAccrual, terms.now) :: j.intervals }
  | .crystallization nav => { j with
      value := nav
      gains := j.gains + max 0 (nav - j.value)
      profitCharged := j.profitCharged + state.profit nav
      performanceFees := j.performanceFees + terms.charge (state.profit nav)
      clawedBack := j.clawedBack + terms.charge (state.loss nav) }

structure Account where
  state : Option VaultState
  journal : Journal

namespace Account

def vault (a : Account) : VaultState := a.state.getD defaultVaultState

def next (terms : Terms) (a : Account) (event : Event) : Account where
  state := some (a.vault.apply terms event)
  journal := a.journal.note terms a.vault event

@[simp] theorem vault_next (terms : Terms) (a : Account) (event : Event) :
    (a.next terms event).vault = a.vault.apply terms event := rfl

@[simp] theorem journal_next (terms : Terms) (a : Account) (event : Event) :
    (a.next terms event).journal = a.journal.note terms a.vault event := rfl

/-- What holds whenever the engine lets an event happen. -/
def Applies (terms : Terms) (a : Account) : Event → Prop
  | .deposit amount => 0 < amount
  | .withdrawal amount => 0 < amount ∧ a.state.isSome
  | .accrual aum => a.state.isSome ∧
      IsI128 (a.vault.feesPaid + terms.accrued a.vault.lastAccrual aum)
  | .crystallization nav => a.state.isSome ∧ (a.vault.highWaterMark < nav →
      IsI128 (a.vault.feesPaid + terms.charge (a.vault.profit nav)))

/-- Each event of a sequence meets `cond` in the account that it finds. -/
def Along (cond : Terms → Account → Event → Prop) (terms : Terms) : Account → List Event → Prop
  | _, [] => True
  | a, event :: rest => cond terms a event ∧ Along cond terms (a.next terms event) rest

variable {terms : Terms} {cond : Terms → Account → Event → Prop} {P : Account → Prop} {a : Account}

theorem Along.invariant {events : List Event}
    (keep : ∀ a event, Applies terms a event → cond terms a event → P a → P (a.next terms event))
    (start : P a) (applies : Along Applies terms a events) (meets : Along cond terms a events) :
    P (events.foldl (next terms) a) := by
  induction events generalizing a with
  | nil => exact start
  | cons event _ ih =>
    exact ih (keep a event applies.1 meets.1 start) applies.2 meets.2

theorem Along.true (terms : Terms) (a : Account) (events : List Event) :
    Along (fun _ _ _ => True) terms a events := by
  induction events generalizing a with
  | nil => trivial
  | cons _ _ ih => exact ⟨trivial, ih _⟩

end Account

/-! ## Charges -/

namespace Terms

theorem charge_zero (terms : Terms) : terms.charge 0 = 0 := by
  unfold charge
  rw [zero_mul, Int.zero_tdiv]

theorem charge_nonneg (terms : Terms) {size : ℤ} (h : 0 ≤ size) : 0 ≤ terms.charge size :=
  Int.tdiv_nonneg (mul_nonneg h (Int.natCast_nonneg _)) (by decide)

theorem charge_le_iff (terms : Terms) {size bound : ℤ} (h : 0 ≤ size) :
    terms.charge size ≤ bound ↔ size * terms.rate size < bpsDenominator * (bound + 1) := by
  have product : 0 ≤ size * (terms.rate size : ℤ) := mul_nonneg h (Int.natCast_nonneg _)
  unfold charge
  rw [Int.tdiv_eq_ediv_of_nonneg product, ← Int.lt_add_one_iff, Int.ediv_lt_iff_lt_mul (by decide),
    mul_comm (bound + 1)]

theorem accrued_nonneg (terms : Terms) (since : ℕ) (aum : ℤ) : 0 ≤ terms.accrued since aum := by
  unfold accrued
  split_ifs with none
  · exact le_rfl
  · have positive : 0 ≤ aum := (not_le.1 (not_or.1 none).2).le
    exact Int.tdiv_nonneg (mul_nonneg (mul_nonneg positive (Int.natCast_nonneg _))
      (Int.natCast_nonneg _)) (by decide)

end Terms

/-! ## Fields after an event -/

namespace VaultState

variable (terms : Terms) (state : VaultState) (amount nav : ℤ)

theorem highWaterMark_deposit : (state.apply terms (.deposit amount)).highWaterMark =
    max state.highWaterMark (state.principal + amount) := by
  simp only [apply]
  split_ifs with raised
  · exact (max_eq_right raised.le).symm
  · exact (max_eq_left (not_lt.1 raised)).symm

theorem feesPaid_deposit : (state.apply terms (.deposit amount)).feesPaid = state.feesPaid := by
  simp only [apply]
  split_ifs <;> rfl

theorem lastAccrual_deposit : (state.apply terms (.deposit amount)).lastAccrual = terms.now := by
  simp only [apply]

theorem highWaterMark_crystallization : (state.apply terms (.crystallization nav)).highWaterMark =
    max state.highWaterMark nav := by
  simp only [apply]
  split_ifs with above
  · exact (max_eq_right above.le).symm
  · exact (max_eq_left (not_lt.1 above)).symm
  · exact (max_eq_left (not_lt.1 above)).symm

theorem feesPaid_crystallization : (state.apply terms (.crystallization nav)).feesPaid =
    if state.highWaterMark < nav then state.feesPaid + terms.charge (state.profit nav)
    else if nav < state.lastCrystallized
      then saturateI128 (state.feesPaid - terms.charge (state.loss nav))
      else state.feesPaid := by
  simp only [apply]
  split_ifs <;> rfl

theorem lastAccrual_crystallization :
    (state.apply terms (.crystallization nav)).lastAccrual = state.lastAccrual := by
  simp only [apply]
  split_ifs <;> rfl

theorem profit_nonneg : 0 ≤ state.profit nav := le_max_left _ _

theorem loss_nonneg : 0 ≤ state.loss nav := by
  unfold loss
  split_ifs
  · exact le_rfl
  · exact le_max_left _ _

variable {state nav}

theorem loss_eq_zero (h : state.highWaterMark < nav) : state.loss nav = 0 := if_pos h

theorem profit_eq_zero (h : ¬ state.highWaterMark < nav) : state.profit nav = 0 :=
  max_eq_left (by omega)

end VaultState

end FeeEngine
