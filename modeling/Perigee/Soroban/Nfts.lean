import Perigee.Soroban.Outcome

/-!
# Non-fungible tokens

`Nfts` says who owns which token of which collection.  The standard transfer hands a token over and
traps unless the sender owns it.
-/

namespace Soroban

variable {Address ε : Type} [DecidableEq Address]

/-- The owners of all non-fungible tokens: `n collection id`. -/
abbrev Nfts (Address : Type) := Address → ℤ → Option Address

namespace Nfts

def give (n : Nfts Address) (collection : Address) (id : ℤ) (owner : Address) : Nfts Address :=
  Function.update n collection (Function.update (n collection) id (some owner))

def transfer (n : Nfts Address) (collection src dst : Address) (id : ℤ) :
    Outcome ε (Nfts Address) :=
  if n collection id = some src then .ok (n.give collection id dst) else .error .trap

@[simp] theorem give_self (n : Nfts Address) (collection owner : Address) (id : ℤ) :
    n.give collection id owner collection id = some owner := by
  simp [give]

theorem transfer_ok_iff {n n' : Nfts Address} {collection src dst : Address} {id : ℤ} :
    (n.transfer collection src dst id : Outcome ε _) = .ok n' ↔
      n collection id = some src ∧ n.give collection id dst = n' :=
  ite_ok_iff

end Nfts

end Soroban
