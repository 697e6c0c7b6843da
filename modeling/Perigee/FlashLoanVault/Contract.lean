import Perigee.Guards.Contract
import Perigee.Soroban.Nested
import Perigee.Soroban.Store
import Perigee.Soroban.Tokens

/-!
# The flash-loan vault

An admin deposits tokens, which anyone may borrow for the time of a callback.  The file follows
`contracts/flash_loan_vault/src/lib.rs`.  `flash_loan` and `borrow` call the borrower in the middle,
so each is cut in two there.  The bit `PauseType::BORROW` is declared nowhere and is a parameter.
Events are left out.
-/

namespace FlashLoanVault

open Soroban

inductive Error where
  | alreadyInitialized
  | notInitialized
  | unauthorized
  | reentrancy
  | loanNotRepaid
  | insufficientVaultBalance
  | invalidAmount
  | invalidFee
  | paused
  | insufficientDeposit
  | borrowPaused
  deriving DecidableEq

structure BorrowRecord where
  fee : ℤ
  totalRepayment : ℤ
  deriving DecidableEq

/-- The storage of the vault by its keys, with the keys of the guard and the balances of all
tokens. -/
structure World (Address : Type) where
  admin : Option Address := none
  token : Option Address := none
  feeBps : Option ℤ := none
  flashLoanActive : Option Bool := none
  borrowPaused : Option Bool := none
  totalDeposited : Option ℤ := none
  borrowRecord : Store Address BorrowRecord := ∅
  guard : Guards.World Address := {}
  tokens : Tokens Address

def maxFeeBps : ℤ := 100

def defaultFeeBps : ℤ := 0

variable {Address : Type}

/-! ## Helpers -/

variable (w : World Address)

def checkNotPaused (operation : BitVec 32) : Outcome Error Unit :=
  reject (Guards.isPaused w.guard operation = true) .paused

def loadAdmin : Outcome Error Address := okOr w.admin .notInitialized

def loadToken : Outcome Error Address := okOr w.token .notInitialized

def getFeeBps : ℤ := w.feeBps.getD defaultFeeBps

def calculateFee (amount : ℤ) : Outcome Error ℤ := do
  let feeBps := getFeeBps w
  let scaled ← i128 (amount * feeBps)
  divI128 scaled 10000

def isFlashLoanActive : Bool := w.flashLoanActive.getD false

def checkNoFlashLoanActive : Outcome Error Unit :=
  reject (isFlashLoanActive w = true) .reentrancy

def setFlashLoanActive (active : Bool) (w : World Address) : World Address :=
  { w with flashLoanActive := some active }

def getTotalDeposited : ℤ := w.totalDeposited.getD 0

def setTotalDeposited (amount : ℤ) (w : World Address) : World Address :=
  { w with totalDeposited := some amount }

def isBorrowPaused : Bool := w.borrowPaused.getD false

def setBorrowPaused (paused : Bool) (w : World Address) : World Address :=
  { w with borrowPaused := some paused }

/-- `Result::map_err` to `Unauthorized` for the result of a function of the guard. -/
def mapUnauthorized {α : Type} (r : Outcome Guards.GuardError α) : Outcome Error α :=
  match r with
  | .ok a => .ok a
  | .error (.err _) => .error (.err .unauthorized)
  | .error .trap => .error .trap

variable [DecidableEq Address] {this : Address}

def transferToken (token src dst : Address) (amount : ℤ) (w : World Address) :
    Outcome Error (World Address) := do
  let tokens ← w.tokens.transfer token src dst amount
  pure { w with tokens }

/-! ## The admin's entry points -/

section Admin

variable (env : Env this)

def initializeVault (admin token : Address) (w : World Address) :
    Outcome Error (World Address) := do
  reject (w.admin.isSome = true) .alreadyInitialized
  pure { w with
    admin := some admin
    token := some token
    feeBps := some defaultFeeBps
    flashLoanActive := some false
    borrowPaused := some false
    totalDeposited := some 0 }

def deposit (src : Address) (amount : ℤ) (w : World Address) : Outcome Error (World Address) := do
  checkNoFlashLoanActive w
  reject (amount ≤ 0) .invalidAmount
  let admin ← loadAdmin w
  reject (src ≠ admin) .unauthorized
  requireAuth env src
  let token ← loadToken w
  let w ← transferToken token src this amount w
  let deposited := getTotalDeposited w
  let deposited ← i128 (deposited + amount)
  pure (setTotalDeposited deposited w)

def withdraw (dst : Address) (amount : ℤ) (w : World Address) : Outcome Error (World Address) := do
  checkNoFlashLoanActive w
  reject (amount ≤ 0) .invalidAmount
  let admin ← loadAdmin w
  reject (dst ≠ admin) .unauthorized
  requireAuth env dst
  let deposited := getTotalDeposited w
  reject (deposited < amount) .insufficientDeposit
  let token ← loadToken w
  let w ← transferToken token this dst amount w
  let deposited ← i128 (deposited - amount)
  pure (setTotalDeposited deposited w)

def setFee (feeBps : ℤ) (w : World Address) : Outcome Error (World Address) := do
  checkNoFlashLoanActive w
  reject (¬ (0 ≤ feeBps ∧ feeBps ≤ maxFeeBps)) .invalidFee
  let admin ← loadAdmin w
  requireAuth env admin
  pure { w with feeBps := some feeBps }

def setPaused (borrowBit : BitVec 32) (admin : Address) (paused : Bool) (w : World Address) :
    Outcome Error (World Address) := do
  checkNoFlashLoanActive w
  let guard ← mapUnauthorized (Guards.setPauseByAdmin env.auth admin borrowBit paused w.guard)
  pure { w with guard }

def pauseBorrow (w : World Address) : Outcome Error (World Address) := do
  let admin ← loadAdmin w
  requireAuth env admin
  pure (setBorrowPaused true w)

def resumeBorrow (w : World Address) : Outcome Error (World Address) := do
  let admin ← loadAdmin w
  requireAuth env admin
  pure (setBorrowPaused false w)

def emergencyPause (approvers : List Address) (w : World Address) :
    Outcome Error (World Address) := do
  checkNoFlashLoanActive w
  let guard ← mapUnauthorized (Guards.emergencyPauseAll env.auth approvers w.guard)
  pure { w with guard }

end Admin

/-! ## Loans -/

/-- What a loan keeps over the callback: the borrower if it has a record, the token, the balance
before the loan and the fee.  `before` is the state to which the host takes back a call that
fails. -/
structure Loan (Address : Type) where
  borrower : Option Address
  token : Address
  preBalance : ℤ
  fee : ℤ
  before : World Address

def collectFee (fee : ℤ) (w : World Address) : Outcome Error (World Address) :=
  if 0 < fee then do
    let deposited ← i128 (getTotalDeposited w + fee)
    pure (setTotalDeposited deposited w)
  else pure w

/-- `flash_loan` up to the callback. -/
def flashLoan (borrowBit : BitVec 32) (env : Env this) (initiator receiver : Address) (amount : ℤ)
    (w : World Address) : Outcome Error (Loan Address × World Address) := do
  let before := w
  reject (isBorrowPaused w = true) .borrowPaused
  checkNotPaused w borrowBit
  reject (amount ≤ 0) .invalidAmount
  checkNoFlashLoanActive w
  requireAuth env initiator
  let token ← loadToken w
  let preBalance := w.tokens token this
  reject (preBalance < amount) .insufficientVaultBalance
  let feeBps := getFeeBps w
  let scaled ← i128 (amount * feeBps)
  let fee ← divI128 scaled 10000
  let w := setFlashLoanActive true w
  let w ← transferToken token this receiver amount w
  pure ({ borrower := none, token, preBalance, fee, before }, w)

def finishFlashLoan (this : Address) (loan : Loan Address) (w : World Address) :
    Outcome Error (ℤ × World Address) := do
  let requiredBalance ← i128 (loan.preBalance + loan.fee)
  let postBalance := w.tokens loan.token this
  reject (postBalance < requiredBalance) .loanNotRepaid
  let w := setFlashLoanActive false w
  let w ← collectFee loan.fee w
  pure (loan.fee, w)

/-- `borrow` up to the callback. -/
def borrow (borrowBit : BitVec 32) (this borrower : Address) (amount : ℤ) (w : World Address) :
    Outcome Error (Loan Address × World Address) := do
  let before := w
  reject (isBorrowPaused w = true) .borrowPaused
  checkNotPaused w borrowBit
  reject (amount ≤ 0) .invalidAmount
  reject (isFlashLoanActive w = true) .reentrancy
  let token ← loadToken w
  let preBalance := w.tokens token this
  reject (preBalance < amount) .insufficientVaultBalance
  let fee ← calculateFee w amount
  let totalRepayment ← i128 (amount + fee)
  let w := setFlashLoanActive true w
  let w := { w with borrowRecord := w.borrowRecord.set borrower ⟨fee, totalRepayment⟩ }
  let w ← transferToken token this borrower amount w
  pure ({ borrower := some borrower, token, preBalance, fee, before }, w)

def finishBorrow (this borrower : Address) (loan : Loan Address) (w : World Address) :
    Outcome Error (ℤ × World Address) := do
  let requiredBalance ← i128 (loan.preBalance + loan.fee)
  let postBalance := w.tokens loan.token this
  ensure (¬ postBalance < requiredBalance)
  let w := setFlashLoanActive false w
  let w := { w with borrowRecord := w.borrowRecord.set borrower ⟨0, 0⟩ }
  let w ← collectFee loan.fee w
  pure (loan.fee, w)

/-- What is left to do after the callback. -/
def settle (this : Address) (loan : Loan Address) (w : World Address) :
    Outcome Error (ℤ × World Address) :=
  match loan.borrower with
  | none => finishFlashLoan this loan w
  | some borrower => finishBorrow this borrower loan w

/-- Return from a loan: one that cannot be settled is undone. -/
def finish (this : Address) (loan : Loan Address) (w : World Address) : World Address :=
  match settle this loan w with
  | .ok (_, w') => w'
  | .error _ => loan.before

/-! ## The system -/

/-- What may be called, with what the host says about it.  `elsewhere` is any other use of the
tokens. -/
inductive Request (this : Address) where
  | initializeVault (admin token : Address)
  | deposit (env : Env this) (src : Address) (amount : ℤ)
  | withdraw (env : Env this) (dst : Address) (amount : ℤ)
  | setFee (env : Env this) (feeBps : ℤ)
  | setPaused (env : Env this) (admin : Address) (paused : Bool)
  | pauseBorrow (env : Env this)
  | resumeBorrow (env : Env this)
  | emergencyPause (env : Env this) (approvers : List Address)
  | elsewhere (tokens : Tokens Address)

/-- A request is granted.  Only the vault lowers its own balances of standard tokens. -/
def Serves (borrowBit : BitVec 32) (request : Request this) (w w' : World Address) : Prop :=
  match request with
  | .initializeVault admin token => initializeVault admin token w = .ok w'
  | .deposit env src amount => deposit env src amount w = .ok w'
  | .withdraw env dst amount => withdraw env dst amount w = .ok w'
  | .setFee env feeBps => setFee env feeBps w = .ok w'
  | .setPaused env admin paused => setPaused env borrowBit admin paused w = .ok w'
  | .pauseBorrow env => pauseBorrow env w = .ok w'
  | .resumeBorrow env => resumeBorrow env w = .ok w'
  | .emergencyPause env approvers => emergencyPause env approvers w = .ok w'
  | .elsewhere tokens =>
    (∀ token, w.tokens token this ≤ tokens token this) ∧ w' = { w with tokens }

inductive LoanRequest (this : Address) where
  | flashLoan (env : Env this) (initiator receiver : Address) (amount : ℤ)
  | borrow (borrower : Address) (amount : ℤ)

def lend (borrowBit : BitVec 32) (w : World Address) :
    LoanRequest this → Outcome Error (Loan Address × World Address)
  | .flashLoan env initiator receiver amount => flashLoan borrowBit env initiator receiver amount w
  | .borrow borrower amount => borrow borrowBit this borrower amount w

/-- The vault with the calls in progress. -/
abbrev State (Address : Type) := Machine (World Address) (Loan Address)

/-- One step of the callers and callbacks, nested in any way. -/
def Step (this : Address) (borrowBit : BitVec 32) :
    State Address → Machine.Label (Request this) (LoanRequest this) → State Address → Prop :=
  Machine.Step (Serves borrowBit)
    (fun request w loan w' => lend borrowBit w request = .ok (loan, w'))
    (finish this)

def Initial (this : Address) (m : State Address) : Prop :=
  ∃ tokens : Tokens Address, (∀ token, 0 ≤ tokens token this) ∧ m = ⟨{ tokens }, []⟩

end FlashLoanVault
