import Perigee.Token.Contract
import Perigee.Soroban.Ledger

/-!
# What the calls of the token do

`Effect` says once, for every entry point, when a call returns and what it writes to the balances
and the allowances; `exec_effect` derives it from the code.
-/

namespace Token

open Soroban Guards

variable {Address : Type} [DecidableEq Address] {host : Host Address} {w w' : World Address}

def credit (addr : Address) (amount : ℤ) (w : World Address) : World Address :=
  writeBalance addr (readBalance w addr + amount) w

def supply (w : World Address) : ℤ := w.balances.sumBy fun _ balance => balance

@[simp] theorem readBalance_credit (addr : Address) (amount : ℤ) (w : World Address) (a : Address) :
    readBalance (credit addr amount w) a = readBalance w a + if a = addr then amount else 0 := by
  unfold credit writeBalance
  rw [readBalance, Store.getD_set]
  split_ifs with same
  · rw [same]
  · exact (add_zero _).symm

@[simp] theorem supply_credit (addr : Address) (amount : ℤ) (w : World Address) :
    supply (credit addr amount w) = supply w + amount := by
  have exchange := Store.share_add_sumBy_set (fun _ balance => balance) w.balances addr
    (readBalance w addr + amount)
  rw [Balanced.share_eq_getD] at exchange
  unfold supply credit writeBalance
  unfold readBalance at exchange ⊢
  linarith

section Allowance

variable (owner spender : Address) (amount : ℤ) (expirationLedger : ℕ) (w : World Address)

theorem writeAllowance_balances :
    (writeAllowance owner spender amount expirationLedger w).balances = w.balances := by
  unfold writeAllowance
  split_ifs <;> rfl

@[simp] theorem readBalance_writeAllowance (a : Address) :
    readBalance (writeAllowance owner spender amount expirationLedger w) a = readBalance w a := by
  rw [readBalance, writeAllowance_balances, readBalance]

@[simp] theorem supply_writeAllowance :
    supply (writeAllowance owner spender amount expirationLedger w) = supply w := by
  rw [supply, writeAllowance_balances, supply]

theorem readAllowance_writeAllowance (o s : Address) :
    (readAllowance (writeAllowance owner spender amount expirationLedger w) o s).amount =
      if o = owner ∧ s = spender then max amount 0 else (readAllowance w o s).amount := by
  unfold writeAllowance readAllowance
  by_cases same : (o, s) = (owner, spender)
  · rw [if_pos (Prod.mk.inj same)]
    split_ifs with positive
    · rw [Store.getD_set, if_pos same, max_eq_left positive.le]
    · rw [Store.getD, Store.lookup_remove, if_pos same, max_eq_right (not_lt.1 positive)]
      rfl
  · have other : ¬ (o = owner ∧ s = spender) := fun h => same (Prod.ext h.1 h.2)
    split_ifs with positive
    · rw [Store.getD_set, if_neg same]
    · rw [Store.getD, Store.lookup_remove, if_neg same, ← Store.getD]

end Allowance

variable {addr : Address} {amount : ℤ}

/-! ## Effects -/

/-- Whether the call only concerns the administrator, the guard and the metadata. -/
def Call.administers : Call Address → Bool
  | .initializeToken .. | .setAdmin .. | .guardPause .. | .emergencyPause .. | .guardResume ..
  | .guardAddAdmin .. | .guardRemoveAdmin .. => true
  | _ => false

def drawn (owner spender : Address) (amount : ℤ) (w : World Address) : World Address :=
  writeAllowance owner spender ((readAllowance w owner spender).amount - amount)
    (readAllowance w owner spender).expirationLedger w

theorem readBalance_drawn (owner spender : Address) (amount : ℤ) (w : World Address) (a : Address) :
    readBalance (drawn owner spender amount w) a = readBalance w a :=
  readBalance_writeAllowance ..

/-- An unexpired allowance of the owner covers the amount. -/
def Allowed (host : Host Address) (owner spender : Address) (amount : ℤ) (w : World Address) :
    Prop :=
  amount ≤ (readAllowance w owner spender).amount ∧
    host.sequence ≤ (readAllowance w owner spender).expirationLedger

inductive Effect (host : Host Address) (w : World Address) : Call Address → World Address → Prop
  | administer {call : Call Address} {admin : Option Address} {guard : Guards.World Address}
      {metadata : Option TokenMetadata} (administers : call.administers = true) :
      Effect host w call { w with admin, guard, metadata }
  | mint {dst admin : Address} {amount : ℤ} (stored : w.admin = some admin)
      (auth : host.auth admin = true) : Effect host w (.mint dst amount) (credit dst amount w)
  | approve {owner spender : Address} {amount : ℤ} {expirationLedger : ℕ}
      (auth : host.auth owner = true) :
      Effect host w (.approve owner spender amount expirationLedger)
        (writeAllowance owner spender amount expirationLedger w)
  | transfer {owner dst : Address} {amount : ℤ} (auth : host.auth owner = true)
      (covered : amount ≤ readBalance w owner) :
      Effect host w (.transfer owner dst amount) (credit dst amount (credit owner (-amount) w))
  | transferFrom {spender owner dst : Address} {amount : ℤ} (auth : host.auth spender = true)
      (allowed : Allowed host owner spender amount w) (covered : amount ≤ readBalance w owner) :
      Effect host w (.transferFrom spender owner dst amount)
        (credit dst amount (credit owner (-amount) (drawn owner spender amount w)))
  | burn {owner : Address} {amount : ℤ} (auth : host.auth owner = true)
      (covered : amount ≤ readBalance w owner) :
      Effect host w (.burn owner amount) (credit owner (-amount) w)
  | burnFrom {spender owner : Address} {amount : ℤ} (auth : host.auth spender = true)
      (allowed : Allowed host owner spender amount w) (covered : amount ≤ readBalance w owner) :
      Effect host w (.burnFrom spender owner amount)
        (credit owner (-amount) (drawn owner spender amount w))

theorem receiveBalance_ok (h : receiveBalance addr amount w = .ok w') :
    w' = credit addr amount w := by
  unfold receiveBalance at h
  simp only [ok_iff] at h
  obtain ⟨_, ⟨-, rfl⟩, rfl⟩ := h
  rfl

theorem spendBalance_ok (h : spendBalance addr amount w = .ok w') :
    amount ≤ readBalance w addr ∧ w' = credit addr (-amount) w := by
  unfold spendBalance at h
  simp only [ok_iff] at h
  obtain ⟨-, covered, _, ⟨-, rfl⟩, rfl⟩ := h
  exact ⟨not_lt.1 covered, rfl⟩

theorem spendAllowance_ok {owner spender : Address}
    (h : spendAllowance host owner spender amount w = .ok w') :
    Allowed host owner spender amount w ∧ w' = drawn owner spender amount w := by
  unfold spendAllowance at h
  simp only [ok_iff] at h
  obtain ⟨-, covered, -, unexpired, _, ⟨-, rfl⟩, rfl⟩ := h
  exact ⟨⟨not_lt.1 covered, not_lt.1 unexpired⟩, rfl⟩

omit [DecidableEq Address] in
theorem requireAuth_ok {u : Unit} (h : Guards.requireAuth host.auth addr = .ok u) :
    host.auth addr = true := by
  unfold Guards.requireAuth at h
  split_ifs at h with auth
  exact auth

omit [DecidableEq Address] in
theorem onGuard_ok {f : Guards.World Address → Result (Guards.World Address)}
    (h : onGuard f w = .ok w') : ∃ guard, w' = { w with guard } := by
  unfold onGuard at h
  simp only [ok_iff] at h
  obtain ⟨guard, -, rfl⟩ := h
  exact ⟨guard, rfl⟩

theorem expectOk_ok {α : Type} {r : Result α} {a : α} (h : expectOk r = .ok a) : r = .ok a := by
  unfold expectOk at h
  split at h
  · exact h
  · cases h

theorem exec_effect {call : Call Address} (h : exec host w call = .ok w') :
    Effect host w call w' := by
  cases call <;>
    simp only [exec, initializeToken, setAdmin, mint, approve, transfer, transferFrom, burn,
      burnFrom, readAdministrator, ok_iff] at h
  case initializeToken | setAdmin =>
    obtain ⟨_, -, _, guarded, rfl⟩ := h
    obtain ⟨guard, rfl⟩ := onGuard_ok (expectOk_ok guarded)
    exact .administer rfl
  case guardPause | emergencyPause | guardResume | guardAddAdmin | guardRemoveAdmin =>
    obtain ⟨guard, rfl⟩ := onGuard_ok h
    exact .administer rfl
  case mint =>
    obtain ⟨_, -, _, stored, _, auth, received⟩ := h
    obtain rfl := receiveBalance_ok received
    exact .mint stored (requireAuth_ok auth)
  case approve =>
    obtain ⟨_, auth, rfl⟩ := h
    exact .approve (requireAuth_ok auth)
  case transfer =>
    obtain ⟨_, -, _, auth, _, spent, received⟩ := h
    obtain ⟨covered, rfl⟩ := spendBalance_ok spent
    obtain rfl := receiveBalance_ok received
    exact .transfer (requireAuth_ok auth) covered
  case transferFrom =>
    obtain ⟨_, -, _, auth, _, allowance, _, spent, received⟩ := h
    obtain ⟨allowed, rfl⟩ := spendAllowance_ok allowance
    obtain ⟨covered, rfl⟩ := spendBalance_ok spent
    obtain rfl := receiveBalance_ok received
    rw [readBalance_drawn] at covered
    exact .transferFrom (requireAuth_ok auth) allowed covered
  case burn =>
    obtain ⟨_, -, _, auth, spent⟩ := h
    obtain ⟨covered, rfl⟩ := spendBalance_ok spent
    exact .burn (requireAuth_ok auth) covered
  case burnFrom =>
    obtain ⟨_, -, _, auth, _, allowance, spent⟩ := h
    obtain ⟨allowed, rfl⟩ := spendAllowance_ok allowance
    obtain ⟨covered, rfl⟩ := spendBalance_ok spent
    rw [readBalance_drawn] at covered
    exact .burnFrom (requireAuth_ok auth) allowed covered

/-! ## The changes of a balance -/

def Call.change : Call Address → Address → ℤ
  | .mint dst amount, a => if a = dst then amount else 0
  | .transfer owner dst amount, a | .transferFrom _ owner dst amount, a =>
    (if a = owner then -amount else 0) + if a = dst then amount else 0
  | .burn owner amount, a | .burnFrom _ owner amount, a => if a = owner then -amount else 0
  | _, _ => 0

theorem readBalance_step {action : Action Address} (step : Step w action w') (a : Address) :
    readBalance w' a = readBalance w a + action.call.change a := by
  obtain ⟨host, call⟩ := action
  have effect : Effect host w call w' := exec_effect step
  cases effect with
  | administer administers =>
    cases call <;> first | exact (add_zero _).symm | cases administers
  | mint => rw [readBalance_credit, Call.change]
  | approve => exact (readBalance_writeAllowance ..).trans (add_zero _).symm
  | transfer => rw [readBalance_credit, readBalance_credit, Call.change, add_assoc]
  | transferFrom =>
    rw [readBalance_credit, readBalance_credit, readBalance_drawn, Call.change, add_assoc]
  | burn => rw [readBalance_credit, Call.change]
  | burnFrom => rw [readBalance_credit, readBalance_drawn, Call.change]

end Token
