import Perigee.Data.Roster
import Perigee.Soroban.Run
import Perigee.Soroban.Tokens

/-!
# The timelocked escrow

After a number of ledgers, and with the approvals of three of five guardians, the tokens of the
depositor go to the beneficiary; until then, or while nobody has approved, the depositor can take
them back.  The file follows `guardian.rs`, `escrow.rs` and `contract.rs` of
`contracts/timelocked_escrow/src`.
-/

namespace TimelockedEscrow

open Soroban

/-! ## Storage -/

inductive Error where
  | alreadyInitialized
  | notInitialized
  | alreadyDeposited
  | noDeposit
  | timelockNotExpired
  | insufficientApprovals
  | notGuardian
  | alreadyApproved
  | alreadyFinalized
  | unauthorized
  | invalidGuardianCount
  | duplicateGuardian
  deriving DecidableEq

structure EscrowConfig (Address : Type) where
  depositor : Address
  beneficiary : Address
  token : Address
  amount : ℤ
  unlockLedger : ℕ
  isReleased : Bool
  isCancelled : Bool
  deriving DecidableEq

structure World (Address : Type) where
  config : Option (EscrowConfig Address) := none
  guardians : Option (List Address) := none
  approvals : Option (BitVec 32) := none
  approvalEpoch : Option ℕ := none
  tokens : Tokens Address

abbrev Result (α : Type) := Outcome Error α

section Contract

variable {Address : Type} [DecidableEq Address] {this : Address}

/-! ## Guardians -/

def requiredGuardians : ℕ := 5

def requiredApprovals : ℕ := 3

def readGuardians (w : World Address) : List Address := w.guardians.getD []

def guardianIndex (guardians : List Address) (addr : Address) : Result ℕ :=
  okOr (guardians.findIdx? (· = addr)) .notGuardian

/-- The loops compare every guardian with every later one. -/
def validateGuardians (guardians : List Address) : Result Unit := do
  reject (guardians.length ≠ requiredGuardians) .invalidGuardianCount
  reject (¬ guardians.Pairwise (· ≠ ·)) .duplicateGuardian

def readApprovals (w : World Address) : BitVec 32 := w.approvals.getD 0

def readEpoch (w : World Address) : ℕ := w.approvalEpoch.getD 0

def setApproval (bitmap : BitVec 32) (index : ℕ) : Result (BitVec 32) := do
  let mask := 1#32 <<< index
  reject (bitmap &&& mask ≠ 0) .alreadyApproved
  pure (bitmap ||| mask)

/-- The loop ends after at most 32 rounds, when all bits have been shifted out. -/
def approvalCount (bitmap : BitVec 32) : ℕ := Roster.countOnes 32 bitmap

def hasQuorum (bitmap : BitVec 32) : Bool := requiredApprovals ≤ approvalCount bitmap

/-! ## The escrow -/

def readConfig (w : World Address) : Result (EscrowConfig Address) := okOr w.config .notInitialized

def requireActive (config : EscrowConfig Address) : Result Unit :=
  reject (config.isReleased = true ∨ config.isCancelled = true) .alreadyFinalized

def requireFunded (config : EscrowConfig Address) : Result Unit :=
  reject (config.amount = 0) .noDeposit

variable (env : Env this)

def initializeEscrow (depositor beneficiary token : Address)
    (guardians : List Address) (lockLedgers : ℕ) (w : World Address) : Result (World Address) := do
  reject (w.config.isSome = true) .alreadyInitialized
  validateGuardians guardians
  pure { w with
    config := some ⟨depositor, beneficiary, token, 0,
      min (env.sequence + lockLedgers) (2 ^ 32 - 1), false, false⟩
    guardians := some guardians
    approvals := some 0
    approvalEpoch := some 0 }

def deposit (amount : ℤ) (w : World Address) : Result (World Address) := do
  let config ← readConfig w
  requireActive config
  reject (0 < config.amount) .alreadyDeposited
  requireAuth env config.depositor
  let tokens ← w.tokens.transfer config.token config.depositor this amount
  pure { w with tokens, config := some { config with amount } }

def approve (guardian : Address) (w : World Address) : Result (ℕ × World Address) := do
  let config ← readConfig w
  requireActive config
  requireFunded config
  requireAuth env guardian
  let idx ← guardianIndex (readGuardians w) guardian
  let newBitmap ← setApproval (readApprovals w) idx
  pure (approvalCount newBitmap, { w with approvals := some newBitmap })

def release (w : World Address) : Result (World Address) := do
  let config ← readConfig w
  requireActive config
  requireFunded config
  reject (env.sequence < config.unlockLedger) .timelockNotExpired
  reject (hasQuorum (readApprovals w) = false) .insufficientApprovals
  let tokens ← w.tokens.transfer config.token this config.beneficiary config.amount
  pure { w with tokens, config := some { config with amount := 0, isReleased := true } }

def cancel (w : World Address) : Result (World Address) := do
  let config ← readConfig w
  requireActive config
  requireFunded config
  requireAuth env config.depositor
  reject (config.unlockLedger ≤ env.sequence ∧ 0 < approvalCount (readApprovals w))
    .alreadyFinalized
  let tokens ← w.tokens.transfer config.token this config.depositor config.amount
  pure { w with tokens, config := some { config with amount := 0, isCancelled := true } }

/-- The loop over the approving guardians: each must sign, be a current guardian and be new. -/
def checkApproving (env : Env this) (current : List Address) :
    List Address → BitVec 32 → Result (BitVec 32)
  | [], approverBitmap => pure approverBitmap
  | g :: rest, approverBitmap => do
    requireAuth env g
    let idx ← guardianIndex current g
    let mask := 1#32 <<< idx
    reject (approverBitmap &&& mask ≠ 0) .duplicateGuardian
    checkApproving env current rest (approverBitmap ||| mask)

def rotateGuardians (newGuardians approvingGuardians : List Address)
    (w : World Address) : Result (World Address) := do
  let config ← readConfig w
  requireActive config
  validateGuardians newGuardians
  reject (approvingGuardians.length ≠ requiredApprovals) .insufficientApprovals
  let _ ← checkApproving env (readGuardians w) approvingGuardians 0
  let newEpoch ← u32 (readEpoch w + 1)
  pure { w with
    guardians := some newGuardians
    approvals := some 0
    approvalEpoch := some newEpoch }

/-! ## Runs -/

inductive Call (Address : Type) where
  | initializeEscrow (depositor beneficiary token : Address) (guardians : List Address)
      (lockLedgers : ℕ)
  | deposit (amount : ℤ)
  | approve (guardian : Address)
  | release
  | cancel
  | rotateGuardians (newGuardians approvingGuardians : List Address)

def exec (w : World Address) : Call Address → Result (World Address)
  | .initializeEscrow depositor beneficiary token guardians lockLedgers =>
    initializeEscrow env depositor beneficiary token guardians lockLedgers w
  | .deposit amount => deposit env amount w
  | .approve guardian => Prod.snd <$> approve env guardian w
  | .release => release env w
  | .cancel => cancel env w
  | .rotateGuardians newGuardians approvingGuardians =>
    rotateGuardians env newGuardians approvingGuardians w

inductive Action (this : Address) where
  | call (env : Env this) (call : Call Address)
  | others (tokens : Tokens Address)

/-- Others hold and move their own tokens; they can give to the escrow but not take from it. -/
def Step (w : World Address) (action : Action this) (w' : World Address) : Prop :=
  match action with
  | .call env call => exec env w call = .ok w'
  | .others tokens => (∀ token, w.tokens token this ≤ tokens token this) ∧ w' = { w with tokens }

end Contract

end TimelockedEscrow
