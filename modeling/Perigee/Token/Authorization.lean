import Perigee.Token.Conservation

/-!
# Who may lower a balance

`spending_authorized` says which runs lower a balance only on behalf of its owner: those that mint
nothing negative and move nothing negative from one address to another.  It also accounts for the
allowance of a spender.
-/

namespace Token

open Soroban

variable {Address : Type} [DecidableEq Address] {w w' : World Address} {action : Action Address}
  {actions : List (Action Address)}

/-! ## Lower balances -/

/-- The call was authorized by the owner of the balance, or by a spender with an unexpired allowance
from the owner that covers the amount. -/
def Entitled (w : World Address) (action : Action Address) (addr : Address) : Prop :=
  match action.call with
  | .transfer owner _ _ | .burn owner _ => addr = owner ∧ action.host.auth owner = true
  | .transferFrom spender owner _ amount | .burnFrom spender owner amount =>
    addr = owner ∧ action.host.auth spender = true ∧ Allowed action.host owner spender amount w
  | _ => False

/-- If the call returns, it has lowered only balances it is entitled to. -/
def Authorizes (w : World Address) (action : Action Address) : Prop :=
  ∀ w', Step w action w' → ∀ addr, readBalance w' addr < readBalance w addr →
    Entitled w action addr

/-- Nothing negative is minted or moved from one address to another. -/
def Forward (_ : World Address) (action : Action Address) : Prop :=
  match action.call with
  | .mint _ amount => 0 ≤ amount
  | .transfer owner dst amount | .transferFrom _ owner dst amount => dst = owner ∨ 0 ≤ amount
  | _ => True

instance (w : World Address) (action : Action Address) : Decidable (Forward w action) := by
  unfold Forward
  split <;> infer_instance

theorem authorizes_iff (step : Step w action w') :
    Authorizes w action ↔ ∀ addr, action.call.change addr < 0 → Entitled w action addr := by
  have lower (addr : Address) :
      readBalance w' addr < readBalance w addr ↔ action.call.change addr < 0 := by
    rw [readBalance_step step]
    omega
  constructor
  · intro authorizes addr change
    exact authorizes w' step addr ((lower addr).2 change)
  · intro entitled w'' step' addr lowered
    obtain rfl : w' = w'' := Except.ok.inj (step.symm.trans step')
    exact entitled addr ((lower addr).1 lowered)

/-- A transfer lowers no balance but the owner's exactly if it moves nothing negative to another
address. -/
theorem transfer_lowers_iff {owner dst : Address} {amount : ℤ} :
    (∀ addr, (if addr = owner then -amount else 0) + (if addr = dst then amount else 0) < 0 →
      addr = owner) ↔ dst = owner ∨ 0 ≤ amount := by
  constructor
  · intro lowered
    by_contra backward
    rw [not_or, not_le] at backward
    refine backward.1 (lowered dst ?_)
    rw [if_neg backward.1, if_pos rfl, zero_add]
    exact backward.2
  · intro forward addr lowered
    by_contra other
    split_ifs at lowered with atDst
    · rcases forward with same | _
      · exact other (atDst.trans same)
      · omega
    · exact lt_irrefl 0 lowered

theorem burn_lowers {owner addr : Address} {amount : ℤ}
    (lowered : (if addr = owner then -amount else 0) < 0) : addr = owner := by
  by_contra other
  rw [if_neg other] at lowered
  exact lt_irrefl 0 lowered

/-- A call that returns lowers only balances it is entitled to exactly if it moves forward. -/
theorem authorizes_iff_forward (step : Step w action w') :
    Authorizes w action ↔ Forward w action := by
  rw [authorizes_iff step]
  obtain ⟨host, call⟩ := action
  have effect : Effect host w call w' := exec_effect step
  cases effect with
  | administer administers =>
    cases call <;> first
      | exact iff_of_true (fun _ change => absurd change (lt_irrefl 0)) trivial
      | cases administers
  | approve => exact iff_of_true (fun _ change => absurd change (lt_irrefl 0)) trivial
  | @mint dst _ amount =>
    show (∀ addr, (if addr = dst then amount else 0) < 0 → False) ↔ 0 ≤ amount
    constructor
    · intro kept
      have := kept dst
      rwa [if_pos rfl, imp_false, not_lt] at this
    · intro _ addr lowered
      split_ifs at lowered <;> omega
  | burn auth => exact iff_of_true (fun _ lowered => ⟨burn_lowers lowered, auth⟩) trivial
  | burnFrom auth allowed =>
    exact iff_of_true (fun _ lowered => ⟨burn_lowers lowered, auth, allowed⟩) trivial
  | @transfer _ _ _ auth =>
    refine Iff.trans ?_ transfer_lowers_iff
    exact forall₂_congr fun addr _ => and_iff_left auth
  | @transferFrom _ _ _ _ auth allowed =>
    refine Iff.trans ?_ transfer_lowers_iff
    exact forall₂_congr fun addr _ => and_iff_left ⟨auth, allowed⟩

/-! ## Allowances -/

def Call.approval : Call Address → Option (Address × Address × ℤ)
  | .approve owner spender amount _ => some (owner, spender, amount)
  | _ => none

/-- What a call draws from an allowance: the owner, the spender and the amount. -/
def Call.draw : Call Address → Option (Address × Address × ℤ)
  | .transferFrom spender owner _ amount | .burnFrom spender owner amount =>
    some (owner, spender, amount)
  | _ => none

/-- What was approved last to a spender, nothing if that was negative, and what the spender has
drawn since: the net amount, and the amount taken, in which negative draws do not count. -/
structure Drawing where
  approved : ℤ := 0
  net : ℤ := 0
  taken : ℤ := 0

def Drawing.after (owner spender : Address) (d : Drawing) (action : Action Address) : Drawing :=
  match action.call.approval, action.call.draw with
  | some (o, s, amount), _ =>
    if owner = o ∧ spender = s then { approved := max amount 0 } else d
  | none, some (o, s, amount) =>
    if owner = o ∧ spender = s then
      { d with net := d.net + amount, taken := d.taken + max amount 0 }
    else d
  | none, none => d

def drawing (owner spender : Address) (actions : List (Action Address)) : Drawing :=
  actions.foldl (Drawing.after owner spender) {}

theorem drawing_snoc (owner spender : Address) (actions : List (Action Address))
    (action : Action Address) :
    drawing owner spender (actions ++ [action]) =
      (drawing owner spender actions).after owner spender action := by
  rw [drawing, List.foldl_append]
  rfl

/-- The stored allowance is what the account leaves. -/
structure Accounts (owner spender : Address) (w : World Address) (d : Drawing) : Prop where
  left : (readAllowance w owner spender).amount = d.approved - d.net
  nonneg : 0 ≤ d.approved - d.net

section Accounts

variable {owner spender : Address} {d : Drawing}

theorem Accounts.of_same (accounts : Accounts owner spender w d)
    (same : w'.allowances = w.allowances) : Accounts owner spender w' d := by
  refine ⟨?_, accounts.nonneg⟩
  rw [readAllowance, same]
  exact accounts.left

theorem Accounts.drawn {host : Host Address} {o s : Address} {amount : ℤ}
    (accounts : Accounts owner spender w d) (allowed : Allowed host o s amount w)
    (same : w'.allowances = (drawn o s amount w).allowances) :
    Accounts owner spender w' (if owner = o ∧ spender = s then
      { d with net := d.net + amount, taken := d.taken + max amount 0 } else d) := by
  have left : (readAllowance w' owner spender).amount =
      if owner = o ∧ spender = s then max ((readAllowance w o s).amount - amount) 0
      else (readAllowance w owner spender).amount := by
    rw [readAllowance, same, ← readAllowance, Token.drawn, readAllowance_writeAllowance]
  have covered := allowed.1
  split_ifs with here
  · obtain ⟨rfl, rfl⟩ := here
    rw [if_pos ⟨rfl, rfl⟩, max_eq_left (sub_nonneg.2 covered), accounts.left] at left
    rw [accounts.left] at covered
    exact ⟨left.trans (sub_sub ..), by show 0 ≤ d.approved - (d.net + amount); omega⟩
  · rw [if_neg here] at left
    exact ⟨left.trans accounts.left, accounts.nonneg⟩

theorem Accounts.step (accounts : Accounts owner spender w d) (step : Step w action w') :
    Accounts owner spender w' (d.after owner spender action) := by
  obtain ⟨host, call⟩ := action
  have effect : Effect host w call w' := exec_effect step
  cases effect with
  | administer administers =>
    cases call <;> first | exact accounts.of_same rfl | cases administers
  | mint | transfer | burn => exact accounts.of_same rfl
  | transferFrom _ allowed | burnFrom _ allowed => exact accounts.drawn allowed rfl
  | @approve o s amount expirationLedger =>
    show Accounts owner spender _
      (if owner = o ∧ spender = s then { approved := max amount 0 } else d)
    have left := readAllowance_writeAllowance o s amount expirationLedger w owner spender
    split_ifs with here
    · rw [if_pos here] at left
      exact ⟨left.trans (sub_zero _).symm, by simp⟩
    · rw [if_neg here] at left
      exact ⟨left.trans accounts.left, accounts.nonneg⟩

end Accounts

theorem accounts_run (owner spender : Address) (run : Run Step {} actions w) :
    Accounts owner spender w (drawing owner spender actions) := by
  induction run with
  | nil => exact ⟨rfl, le_rfl⟩
  | snoc _ last ih =>
    rw [drawing_snoc]
    exact ih.step last

def Action.DrawsForward (action : Action Address) : Prop :=
  ∀ draw ∈ action.call.draw, 0 ≤ draw.2.2

instance (action : Action Address) : Decidable action.DrawsForward :=
  inferInstanceAs (Decidable (∀ draw ∈ action.call.draw, 0 ≤ draw.2.2))

theorem taken_eq_net (owner spender : Address)
    (forward : ∀ action ∈ actions, action.DrawsForward) :
    (drawing owner spender actions).taken = (drawing owner spender actions).net := by
  induction actions using List.reverseRecOn with
  | nil => rfl
  | append_singleton _ action ih =>
    have before := ih fun action mem => forward action (List.mem_append_left _ mem)
    have last := forward action (List.mem_append_right _ (List.mem_singleton_self _))
    rw [drawing_snoc]
    unfold Drawing.after
    split
    · split_ifs
      · rfl
      · exact before
    · rename_i o s amount _ drawn
      split_ifs
      · rw [before, max_eq_left (last _ drawn)]
      · exact before
    · exact before

/-! ## Runs -/

/-- The runs that mint nothing negative and move nothing negative between addresses are the runs
that lower balances only as authorized.  A spender's net draws since the last approval are at most
the approved amount, and without negative draws so is the amount taken. -/
theorem spending_authorized (run : Run Step {} actions w) :
    (Run (Guarded Forward Step) {} actions w ↔ Run (Guarded Authorizes Step) {} actions w) ∧
      ∀ owner spender,
        (drawing owner spender actions).net ≤ (drawing owner spender actions).approved ∧
        ((∀ action ∈ actions, action.DrawsForward) →
          (drawing owner spender actions).taken ≤ (drawing owner spender actions).approved) := by
  constructor
  · exact Run.guarded_iff_guarded (fun _ => True) trivial
      (fun _ _ _ _ step => (authorizes_iff_forward step).symm) fun _ _ _ _ _ _ => trivial
  · intro owner spender
    have net := sub_nonneg.1 (accounts_run owner spender run).nonneg
    refine ⟨net, fun forward => ?_⟩
    rw [taken_eq_net owner spender forward]
    exact net

/-- A spender draws an approved amount in two parts. -/
def drawnInParts : List (Action ℕ) :=
  [signed (.initializeToken 0 7 "name" "symbol"), signed (.mint 1 100),
    signed (.approve 1 3 20 50), signed (.transferFrom 3 1 2 15), signed (.burnFrom 3 1 5)]

theorem drawnInParts_authorized :
    ∃ w : World ℕ, Run (Guarded Authorizes Step) {} drawnInParts w ∧
      (drawing 1 3 drawnInParts).taken ≤ (drawing 1 3 drawnInParts).approved ∧
      (drawing 1 3 drawnInParts).taken = 20 := by
  obtain ⟨w, guarded, forward, taken⟩ : ∃ w, Run (Guarded Forward Step) {} drawnInParts w ∧
      (∀ action ∈ drawnInParts, action.DrawsForward) ∧ (drawing 1 3 drawnInParts).taken = 20 :=
    exists_guarded_run (fun _ _ _ => id) (by decide +kernel)
  obtain ⟨same, account⟩ := spending_authorized (guarded.mono fun _ _ _ step => step.2)
  exact ⟨w, same.1 guarded, (account 1 3).2 forward, taken⟩

/-- A sender takes from the recipient by a negative transfer. -/
def takenFromRecipient : Action ℕ := ⟨⟨10, fun a => a = 1⟩, .transfer 1 2 (-5)⟩

/-- A spender raises the own allowance by a negative draw. -/
def drawnTwice : List (Action ℕ) :=
  [signed (.initializeToken 0 7 "name" "symbol"), signed (.mint 1 100),
    signed (.approve 1 3 10 50), signed (.transferFrom 3 1 3 (-5)),
    signed (.transferFrom 3 1 3 15)]

/-- A balance falls in a call that its owner has no part in, and a spender takes more than was
approved. -/
theorem negative_amounts_take_unauthorized :
    (∃ w w' : World ℕ, Run Step {} [signed (.initializeToken 0 7 "name" "symbol"),
        signed (.mint 2 10)] w ∧ Step w takenFromRecipient w' ∧
        readBalance w' 2 < readBalance w 2 ∧ takenFromRecipient.host.auth 2 = false ∧
        ¬ Entitled w takenFromRecipient 2) ∧
      ∃ w : World ℕ, Run Step {} drawnTwice w ∧
        (drawing 1 3 drawnTwice).approved = 10 ∧ (drawing 1 3 drawnTwice).taken = 15 := by
  constructor
  · obtain ⟨w, before, w', step, lower⟩ : ∃ w, [signed (.initializeToken 0 7 "name" "symbol"),
        signed (.mint 2 10)].foldlM perform {} = .ok w ∧
        ∃ w', perform w takenFromRecipient = .ok w' ∧ readBalance w' 2 < readBalance w 2 := by
      decide +kernel
    exact ⟨w, w', Run.of_foldlM (fun _ _ _ => id) before, step, lower, rfl, by
      simp [Entitled, takenFromRecipient]⟩
  · exact exists_run (fun _ _ _ => id) (by decide +kernel)

end Token
