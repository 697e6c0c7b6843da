import Perigee.Token.Effects

/-!
# Conservation of the token

The sum of all balances is always what was minted less what was burned, but with signs: a negative
mint burns, a negative burn mints, and a negative transfer can leave its recipient in debt.
-/

namespace Token

open Soroban

variable {Address : Type} [DecidableEq Address] {w w' : World Address} {action : Action Address}
  {actions : List (Action Address)}

def Call.minted : Call Address → ℤ
  | .mint _ amount => amount
  | _ => 0

def Call.burned : Call Address → ℤ
  | .burn _ amount | .burnFrom _ _ amount => amount
  | _ => 0

def totalMinted (actions : List (Action Address)) : ℤ :=
  (actions.map fun action => action.call.minted).sum

def totalBurned (actions : List (Action Address)) : ℤ :=
  (actions.map fun action => action.call.burned).sum

/-! ## The sum of all balances -/

theorem supply_step (step : Step w action w') :
    supply w' = supply w + action.call.minted - action.call.burned := by
  obtain ⟨host, call⟩ := action
  have effect : Effect host w call w' := exec_effect step
  cases effect with
  | administer administers =>
    cases call <;> first | exact (add_sub_cancel_right (supply w) 0).symm | cases administers
  | mint | approve | transfer => simp [Call.minted, Call.burned]
  | transferFrom => simp [Call.minted, Call.burned, drawn]
  | burn => simp [Call.minted, Call.burned, sub_eq_add_neg]
  | burnFrom => simp [Call.minted, Call.burned, drawn, sub_eq_add_neg]

theorem supply_run (run : Run Step {} actions w) :
    supply w = totalMinted actions - totalBurned actions := by
  induction run with
  | nil => rfl
  | snoc _ last ih =>
    rw [supply_step last, ih, totalMinted, totalBurned, totalMinted, totalBurned, List.map_append,
      List.map_append, List.sum_append, List.sum_append, List.map_singleton, List.map_singleton,
      List.sum_singleton, List.sum_singleton]
    ring

/-! ## Non-negative balances -/

def Nonneg (w : World Address) : Prop := ∀ addr, 0 ≤ readBalance w addr

/-- The sum of all balances changes only as the kind of the call allows. -/
def Call.Supplies (before after : ℤ) : Call Address → Prop
  | .mint .. => before ≤ after
  | .burn .. | .burnFrom .. => after ≤ before
  | _ => after = before

/-- If the call returns, no balance is negative and the sum of all balances has changed only as its
kind allows. -/
def Conserves (w : World Address) (action : Action Address) : Prop :=
  ∀ w', Step w action w' → Nonneg w' ∧ action.call.Supplies (supply w) (supply w')

/-- Nothing negative is minted or burned, and no transfer takes more from its recipient than it
has. -/
def Covered (w : World Address) (action : Action Address) : Prop :=
  match action.call with
  | .mint _ amount | .burn _ amount | .burnFrom _ _ amount => 0 ≤ amount
  | .transfer owner dst amount | .transferFrom _ owner dst amount =>
    dst = owner ∨ 0 ≤ readBalance w dst + amount
  | _ => True

/-- A transfer that the owner's balance covers leaves no debt exactly if the recipient can pay what
a negative amount takes. -/
theorem transfer_nonneg_iff {owner dst : Address} {amount : ℤ} (nonneg : Nonneg w)
    (covered : amount ≤ readBalance w owner) :
    (∀ a, 0 ≤ readBalance w a + ((if a = owner then -amount else 0) +
      if a = dst then amount else 0)) ↔ dst = owner ∨ 0 ≤ readBalance w dst + amount := by
  by_cases same : dst = owner
  · refine iff_of_true (fun a => ?_) (.inl same)
    have balance := nonneg a
    rw [same]
    split_ifs <;> omega
  · constructor
    · intro all
      have received := all dst
      rw [if_neg same, if_pos rfl, zero_add] at received
      exact .inr received
    · intro pays a
      have received := pays.resolve_left same
      have balance := nonneg a
      split_ifs with atOwner atDst atDst
      · exact absurd (atDst.symm.trans atOwner) same
      · rw [atOwner]
        omega
      · rw [atDst]
        omega
      · omega

theorem conserves_iff (step : Step w action w') :
    Conserves w action ↔ (∀ a, 0 ≤ readBalance w a + action.call.change a) ∧
      action.call.Supplies (supply w) (supply w + action.call.minted - action.call.burned) := by
  rw [← supply_step step]
  simp only [← readBalance_step step]
  constructor
  · intro conserves
    exact conserves w' step
  · intro kept w'' step'
    obtain rfl : w' = w'' := Except.ok.inj (step.symm.trans step')
    exact kept

/-- From a state without debts, a call that returns conserves exactly if it is covered. -/
theorem conserves_iff_covered (nonneg : Nonneg w) (step : Step w action w') :
    Conserves w action ↔ Covered w action := by
  rw [conserves_iff step]
  obtain ⟨host, call⟩ := action
  have effect : Effect host w call w' := exec_effect step
  have kept : (∀ a, 0 ≤ readBalance w a + 0) ∧ supply w + 0 - 0 = supply w :=
    ⟨fun a => (add_zero (readBalance w a)).symm ▸ nonneg a, add_sub_cancel_right _ _⟩
  cases effect with
  | administer administers =>
    cases call <;> first | exact iff_of_true kept trivial | cases administers
  | approve => exact iff_of_true kept trivial
  | @mint dst _ amount =>
    show (∀ a, 0 ≤ readBalance w a + if a = dst then amount else 0) ∧
      supply w ≤ supply w + amount - 0 ↔ 0 ≤ amount
    constructor
    · intro _
      omega
    · intro _
      refine ⟨fun a => ?_, by omega⟩
      have balance := nonneg a
      split_ifs <;> omega
  | @burn owner amount _ covered | @burnFrom _ owner amount _ _ covered =>
    show (∀ a, 0 ≤ readBalance w a + if a = owner then -amount else 0) ∧
      supply w + 0 - amount ≤ supply w ↔ 0 ≤ amount
    refine (and_iff_right fun a => ?_).trans (by omega)
    have balance := nonneg a
    split_ifs with atOwner
    · rw [atOwner]
      omega
    · omega
  | transfer _ covered | transferFrom _ _ covered =>
    exact (and_iff_left kept.2).trans (transfer_nonneg_iff nonneg covered)

/-! ## Runs -/

def Call.amount : Call Address → Option ℤ
  | .mint _ amount | .transfer _ _ amount | .transferFrom _ _ _ amount | .burn _ amount
  | .burnFrom _ _ amount => some amount
  | _ => none

def Action.Positive (action : Action Address) : Prop := ∀ amount ∈ action.call.amount, 0 ≤ amount

instance (action : Action Address) : Decidable action.Positive :=
  inferInstanceAs (Decidable (∀ amount ∈ action.call.amount, 0 ≤ amount))

theorem covered_of_positive (nonneg : Nonneg w) (positive : action.Positive) :
    Covered w action := by
  obtain ⟨_, call⟩ := action
  cases call with
  | mint _ amount | burn _ amount | burnFrom _ _ amount => exact positive amount rfl
  | transfer _ dst amount | transferFrom _ _ dst amount =>
    exact .inr (add_nonneg (nonneg dst) (positive amount rfl))
  | _ => trivial

theorem Nonneg.step (nonneg : Nonneg w) (covered : Covered w action) (step : Step w action w') :
    Nonneg w' := ((conserves_iff_covered nonneg step).2 covered w' step).1

/-- The sum of all balances is what was minted less what was burned.  The runs whose calls are
covered are the runs that leave no debts and let the sum rise only by mints and fall only by burns,
and every run without negative amounts is one. -/
theorem conserved_iff (run : Run Step {} actions w) :
    supply w = totalMinted actions - totalBurned actions ∧
      (Run (Guarded Covered Step) {} actions w ↔ Run (Guarded Conserves Step) {} actions w) ∧
      (Run (Guarded Covered Step) {} actions w → Nonneg w) ∧
      ((∀ action ∈ actions, action.Positive) → Run (Guarded Covered Step) {} actions w) := by
  have start : Nonneg ({} : World Address) := fun _ => le_rfl
  refine ⟨supply_run run, ?_, fun run => ?_, fun positive => ?_⟩
  · exact Run.guarded_iff_guarded Nonneg start
      (fun _ _ _ nonneg step => (conserves_iff_covered nonneg step).symm)
      fun _ _ w₂ _ step conserves => (conserves w₂ step).1
  · exact run.invariant start fun _ _ _ nonneg step => nonneg.step step.1 step.2
  · suffices kept : Run (Guarded Covered Step) {} actions w ∧ Nonneg w from kept.1
    induction run with
    | nil => exact ⟨.nil, start⟩
    | snoc _ last ih =>
      obtain ⟨before, nonneg⟩ := ih fun action mem => positive action (List.mem_append_left _ mem)
      have covered := covered_of_positive nonneg
        (positive _ (List.mem_append_right _ (List.mem_singleton_self _)))
      exact ⟨before.snoc ⟨covered, last⟩, nonneg.step covered last⟩

def signed (call : Call ℕ) : Action ℕ := ⟨⟨10, fun _ => true⟩, call⟩

def mintedAndMoved : List (Action ℕ) :=
  [signed (.initializeToken 0 7 "name" "symbol"), signed (.mint 1 100),
    signed (.transfer 1 2 30), signed (.transfer 2 2 30), signed (.approve 2 3 20 50),
    signed (.transferFrom 3 2 1 5), signed (.burnFrom 3 2 15), signed (.burn 1 10)]

theorem mintedAndMoved_conserved :
    ∃ w : World ℕ, Run Step {} mintedAndMoved w ∧ supply w = 75 ∧ Nonneg w ∧
      Run (Guarded Conserves Step) {} mintedAndMoved w := by
  obtain ⟨w, run, positive⟩ : ∃ w : World ℕ, Run Step {} mintedAndMoved w ∧
      ∀ action ∈ mintedAndMoved, action.Positive :=
    exists_run (fun _ _ _ => id) (by decide +kernel)
  obtain ⟨total, same, nonneg, covered⟩ := conserved_iff run
  exact ⟨w, run, total.trans (by decide +kernel), nonneg (covered positive),
    same.1 (covered positive)⟩

/-- A transfer of a negative amount leaves its recipient in debt, and a negative mint and a negative
burn move the sum of all balances down and up. -/
theorem negative_amounts_break_conservation :
    (∃ w : World ℕ, Run Step {} [signed (.initializeToken 0 7 "name" "symbol"),
        signed (.transfer 1 2 (-5))] w ∧ readBalance w 2 = -5) ∧
      (∃ w : World ℕ, Run Step {} [signed (.initializeToken 0 7 "name" "symbol"),
        signed (.mint 1 (-5))] w ∧ supply w = -5) ∧
      ∃ w : World ℕ, Run Step {} [signed (.initializeToken 0 7 "name" "symbol"),
        signed (.burn 1 (-5))] w ∧ supply w = 5 := by
  have carry (w : World ℕ) (action : Action ℕ) (w' : World ℕ) (done : perform w action = .ok w') :
      Step w action w' := done
  exact ⟨exists_run carry (by decide +kernel), exists_run carry (by decide +kernel),
    exists_run carry (by decide +kernel)⟩

end Token
