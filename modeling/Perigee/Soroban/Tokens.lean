import Perigee.Soroban.Outcome

/-!
# The host seen by a contract

`Env this` is what the host tells the contract at address `this` about one call: the ledger sequence
number, and which addresses authorized the call.  A contract that never calls itself is never
authorized by its own address.  `Tokens` is the ledger of all standard tokens.
-/

namespace Soroban

variable {Address ε : Type} [DecidableEq Address]

/-- The host's view of one call of the contract at `this`. -/
structure Env (this : Address) where
  /-- The ledger sequence number. -/
  sequence : ℕ
  /-- The addresses that authorized the call. -/
  auth : Address → Bool
  /-- The contract does not invoke itself, so its own address never authorizes a call. -/
  auth_this : auth this = false

theorem zero_unsigned : ((0 : ℕ) != 0) = false := rfl

def requireAuth {this : Address} (env : Env this) (a : Address) : Outcome ε Unit :=
  if env.auth a then .ok () else .error .trap

omit [DecidableEq Address] in
theorem requireAuth_ok_iff {this : Address} {env : Env this} {a : Address} {u : Unit} :
    (requireAuth env a : Outcome ε Unit) = .ok u ↔ env.auth a = true := by
  unfold requireAuth
  split_ifs with h <;> simp [h]

omit [DecidableEq Address] in
theorem Env.ne_this {this : Address} {env : Env this} {a : Address} (h : env.auth a = true) :
    a ≠ this := by
  rintro rfl
  simp [env.auth_this] at h

/-- The balances of all tokens: `t token holder`. -/
abbrev Tokens (Address : Type) := Address → Address → ℤ

namespace Tokens

def add (t : Tokens Address) (token holder : Address) (x : ℤ) : Tokens Address :=
  Function.update t token (Function.update (t token) holder (t token holder + x))

def transfer (t : Tokens Address) (token src dst : Address) (amount : ℤ) :
    Outcome ε (Tokens Address) :=
  if amount < 0 ∨ t token src < amount then .error .trap
  else .ok ((t.add token src (-amount)).add token dst amount)

theorem add_apply (t : Tokens Address) (token holder k a : Address) (x : ℤ) :
    t.add token holder x k a = t k a + if k = token ∧ a = holder then x else 0 := by
  unfold add
  by_cases hk : k = token
  · subst hk
    by_cases ha : a = holder
    · subst ha
      simp
    · simp [ha]
  · simp [hk]

theorem transfer_ok_iff {t t' : Tokens Address} {token src dst : Address} {amount : ℤ} :
    (t.transfer token src dst amount : Outcome ε _) = .ok t' ↔
      0 ≤ amount ∧ amount ≤ t token src ∧
        t' = (t.add token src (-amount)).add token dst amount := by
  unfold transfer
  split_ifs with h
  · constructor
    · intro h'
      cases h'
    · rintro ⟨_, _, -⟩
      omega
  · rw [not_or, not_lt, not_lt] at h
    simp [h.1, h.2, eq_comm]

/-- A transfer between two accounts changes the balance of `a` by what it received less what it
sent. -/
theorem transfer_apply {t t' : Tokens Address} {token src dst : Address} {amount : ℤ}
    (h : (t.transfer token src dst amount : Outcome ε _) = .ok t') (k a : Address) :
    t' k a = t k a - (if k = token ∧ a = src then amount else 0) +
      (if k = token ∧ a = dst then amount else 0) := by
  obtain ⟨-, -, rfl⟩ := transfer_ok_iff.1 h
  rw [add_apply, add_apply]
  split_ifs <;> ring

end Tokens

end Soroban
