import Perigee.Guards.Contract
import Perigee.Soroban.Store

/-!
# The token contract

Balances, allowances and a pause guard.  The file follows `balance.rs`, `allowance.rs`, `admin.rs`,
`metadata.rs` and `contract.rs` of `contracts/token/src`; the guard is the core of
`contracts/guards`, to which `contracts/emergency_guard` delegates.  Amounts are signed and no entry
point checks their sign.  The metadata URI has keys of its own and is left out.
-/

namespace Token

open Soroban Guards

structure AllowanceValue where
  amount : ℤ
  expirationLedger : ℕ
  deriving DecidableEq

structure TokenMetadata where
  name : String
  symbol : String
  decimals : ℕ
  deriving DecidableEq

structure World (Address : Type) where
  admin : Option Address := none
  guard : Guards.World Address := {}
  balances : Store Address ℤ := ∅
  allowances : Store (Address × Address) AllowanceValue := ∅
  metadata : Option TokenMetadata := none

structure Host (Address : Type) where
  sequence : ℕ
  auth : Address → Bool

/-- The guard's entry points return its errors; everything else panics. -/
abbrev Result := Outcome GuardError

variable {Address : Type} [DecidableEq Address]

/-! ## Balances -/

variable (w : World Address)

def readBalance (addr : Address) : ℤ := w.balances.getD addr 0

def writeBalance (addr : Address) (amount : ℤ) (w : World Address) : World Address :=
  { w with balances := w.balances.set addr amount }

def receiveBalance (addr : Address) (amount : ℤ) (w : World Address) : Result (World Address) := do
  let balance := readBalance w addr
  let balance ← i128 (balance + amount)
  pure (writeBalance addr balance w)

def spendBalance (addr : Address) (amount : ℤ) (w : World Address) : Result (World Address) := do
  let balance := readBalance w addr
  ensure (¬ balance < amount)
  let balance ← i128 (balance - amount)
  pure (writeBalance addr balance w)

/-! ## Allowances -/

def readAllowance (owner spender : Address) : AllowanceValue :=
  w.allowances.getD (owner, spender) ⟨0, 0⟩

def writeAllowance (owner spender : Address) (amount : ℤ) (expirationLedger : ℕ)
    (w : World Address) : World Address :=
  if 0 < amount then
    { w with allowances := w.allowances.set (owner, spender) ⟨amount, expirationLedger⟩ }
  else
    { w with allowances := w.allowances.remove (owner, spender) }

def spendAllowance (host : Host Address) (owner spender : Address) (amount : ℤ)
    (w : World Address) : Result (World Address) := do
  let allowance := readAllowance w owner spender
  ensure (¬ allowance.amount < amount)
  ensure (¬ allowance.expirationLedger < host.sequence)
  let left ← i128 (allowance.amount - amount)
  pure (writeAllowance owner spender left allowance.expirationLedger w)

/-! ## The administrator and the guard -/

section Administration

omit [DecidableEq Address]

def hasAdministrator : Bool := w.admin.isSome

def readAdministrator : Result Address := unwrap w.admin

def writeAdministrator (id : Address) (w : World Address) : World Address :=
  { w with admin := some id }

def writeMetadata (name symbol : String) (decimals : ℕ) (w : World Address) : World Address :=
  { w with metadata := some ⟨name, symbol, decimals⟩ }

def requireNotPaused (operation : BitVec 32) : Result Unit :=
  ensure (¬ isPaused w.guard operation = true)

/-- Run a function of the guard on the guard's keys. -/
def onGuard (f : Guards.World Address → Result (Guards.World Address)) (w : World Address) :
    Result (World Address) := do
  let guard ← f w.guard
  pure { w with guard }

def expectOk {α : Type} (r : Result α) : Result α :=
  match r with
  | .ok a => .ok a
  | .error _ => .error .trap

end Administration

namespace PauseType

def transfer : BitVec 32 := 1 <<< 3
def mint : BitVec 32 := 1 <<< 4
def burn : BitVec 32 := 1 <<< 5

end PauseType

/-! ## The entry points -/

section EntryPoints

variable (host : Host Address)

def initializeToken (admin : Address) (decimal : ℕ) (name symbol : String) (w : World Address) :
    Result (World Address) := do
  ensure (¬ hasAdministrator w = true)
  let w := writeAdministrator admin w
  let w ← expectOk (onGuard (initGuard [admin] 1) w)
  pure (writeMetadata name symbol decimal w)

def mint (dst : Address) (amount : ℤ) (w : World Address) : Result (World Address) := do
  requireNotPaused w PauseType.mint
  let admin ← readAdministrator w
  Guards.requireAuth host.auth admin
  receiveBalance dst amount w

def setAdmin (newAdmin : Address) (w : World Address) : Result (World Address) := do
  let admin ← readAdministrator w
  let w ← expectOk (onGuard (rotateAdmin host.auth [admin] admin newAdmin) w)
  pure (writeAdministrator newAdmin w)

def guardPause (admin : Address) (operation : BitVec 32) (paused : Bool) (w : World Address) :
    Result (World Address) :=
  onGuard (setPauseByAdmin host.auth admin operation paused) w

def emergencyPause (approvers : List Address) (w : World Address) : Result (World Address) :=
  onGuard (emergencyPauseAll host.auth approvers) w

def guardResume (approvers : List Address) (w : World Address) : Result (World Address) :=
  onGuard (resumeAll host.auth approvers) w

def guardAddAdmin (approvers : List Address) (newAdmin : Address) (w : World Address) :
    Result (World Address) :=
  onGuard (addAdmin host.auth approvers newAdmin) w

def guardRemoveAdmin (approvers : List Address) (admin : Address) (w : World Address) :
    Result (World Address) :=
  onGuard (removeAdmin host.auth approvers admin) w

def approve (owner spender : Address) (amount : ℤ) (expirationLedger : ℕ) (w : World Address) :
    Result (World Address) := do
  Guards.requireAuth host.auth owner
  pure (writeAllowance owner spender amount expirationLedger w)

def transfer (owner dst : Address) (amount : ℤ) (w : World Address) : Result (World Address) := do
  requireNotPaused w PauseType.transfer
  Guards.requireAuth host.auth owner
  let w ← spendBalance owner amount w
  receiveBalance dst amount w

def transferFrom (spender owner dst : Address) (amount : ℤ) (w : World Address) :
    Result (World Address) := do
  requireNotPaused w PauseType.transfer
  Guards.requireAuth host.auth spender
  let w ← spendAllowance host owner spender amount w
  let w ← spendBalance owner amount w
  receiveBalance dst amount w

def burn (owner : Address) (amount : ℤ) (w : World Address) : Result (World Address) := do
  requireNotPaused w PauseType.burn
  Guards.requireAuth host.auth owner
  spendBalance owner amount w

def burnFrom (spender owner : Address) (amount : ℤ) (w : World Address) :
    Result (World Address) := do
  requireNotPaused w PauseType.burn
  Guards.requireAuth host.auth spender
  let w ← spendAllowance host owner spender amount w
  spendBalance owner amount w

end EntryPoints

inductive Call (Address : Type) where
  | initializeToken (admin : Address) (decimal : ℕ) (name symbol : String)
  | mint (dst : Address) (amount : ℤ)
  | setAdmin (newAdmin : Address)
  | guardPause (admin : Address) (operation : BitVec 32) (paused : Bool)
  | emergencyPause (approvers : List Address)
  | guardResume (approvers : List Address)
  | guardAddAdmin (approvers : List Address) (newAdmin : Address)
  | guardRemoveAdmin (approvers : List Address) (admin : Address)
  | approve (owner spender : Address) (amount : ℤ) (expirationLedger : ℕ)
  | transfer (owner dst : Address) (amount : ℤ)
  | transferFrom (spender owner dst : Address) (amount : ℤ)
  | burn (owner : Address) (amount : ℤ)
  | burnFrom (spender owner : Address) (amount : ℤ)

def exec (host : Host Address) (w : World Address) : Call Address → Result (World Address)
  | .initializeToken admin decimal name symbol => initializeToken admin decimal name symbol w
  | .mint dst amount => mint host dst amount w
  | .setAdmin newAdmin => setAdmin host newAdmin w
  | .guardPause admin operation paused => guardPause host admin operation paused w
  | .emergencyPause approvers => emergencyPause host approvers w
  | .guardResume approvers => guardResume host approvers w
  | .guardAddAdmin approvers newAdmin => guardAddAdmin host approvers newAdmin w
  | .guardRemoveAdmin approvers admin => guardRemoveAdmin host approvers admin w
  | .approve owner spender amount expirationLedger =>
    approve host owner spender amount expirationLedger w
  | .transfer owner dst amount => transfer host owner dst amount w
  | .transferFrom spender owner dst amount => transferFrom host spender owner dst amount w
  | .burn owner amount => burn host owner amount w
  | .burnFrom spender owner amount => burnFrom host spender owner amount w

structure Action (Address : Type) where
  host : Host Address
  call : Call Address

def perform (action : Action Address) : Result (World Address) :=
  exec action.host w action.call

def Step (action : Action Address) (w' : World Address) : Prop :=
  perform w action = .ok w'

end Token
