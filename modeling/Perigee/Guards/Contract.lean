import Perigee.Soroban.Run

/-!
# The circuit breaker

A committee of admins pauses and resumes the operations of a host contract and changes its own
membership, most of it by a threshold of signatures.  The file follows the core of
`contracts/guards/src/lib.rs`, which runs in the storage of whatever contract embeds it.
-/

namespace Guards

open Soroban

inductive GuardError where
  | reentrancy
  | notInitialized
  | unauthorized
  | paused
  | insufficientSignatures
  | invalidThreshold
  | adminNotFound
  | alreadyInitialized
  deriving DecidableEq

/-- The bitmask of paused operations. -/
abbrev PauseType := BitVec 32

def PauseType.setPaused (state : PauseType) (operation : BitVec 32) (paused : Bool) : PauseType :=
  if paused then state ||| operation else state &&& ~~~operation

structure World (Address : Type) where
  pauseState : Option PauseType := none
  admins : Option (List Address) := none
  signatureThreshold : Option ℕ := none
  deriving DecidableEq

section Core

variable {Address : Type} [DecidableEq Address] (w : World Address)

def readState : PauseType := w.pauseState.getD 0

def isPaused (operation : BitVec 32) : Bool := readState w &&& operation != 0

def checkNotPaused (operation : BitVec 32) : Outcome GuardError Unit :=
  reject (isPaused w operation = true) .paused

def getAdmins : List Address := w.admins.getD []

def getThreshold : ℕ := w.signatureThreshold.getD 0

def isAdmin (addr : Address) : Bool := (getAdmins w).any (· = addr)

variable (auth : Address → Bool)

def requireAuth (addr : Address) : Outcome GuardError Unit :=
  if auth addr then .ok () else .error .trap

/-- The loop over the approvers: a repeated one is skipped, a new one must be an admin and have
signed. -/
def countValid (auth : Address → Bool) (w : World Address) :
    List Address → List Address → ℕ → Outcome GuardError ℕ
  | [], _, valid => pure valid
  | addr :: rest, seen, valid =>
    if seen.any (· = addr) then countValid auth w rest seen valid
    else if isAdmin w addr then do
      requireAuth auth addr
      countValid auth w rest (seen ++ [addr]) (valid + 1)
    else .error (.err .unauthorized)

def validateMultiSig (approvers : List Address) (w : World Address) : Outcome GuardError Unit := do
  let threshold ← okOr w.signatureThreshold .notInitialized
  reject (approvers.length < threshold) .insufficientSignatures
  let valid ← countValid auth w approvers [] 0
  reject (valid < threshold) .insufficientSignatures

/-! ## Pausing -/

def setPauseState (operation : BitVec 32) (paused : Bool) (w : World Address) :
    Outcome GuardError (World Address) :=
  pure { w with pauseState := some ((readState w).setPaused operation paused) }

def setPauseByAdmin (admin : Address) (operation : BitVec 32)
    (paused : Bool) (w : World Address) : Outcome GuardError (World Address) := do
  requireAuth auth admin
  reject (isAdmin w admin = false) .unauthorized
  pure { w with pauseState := some ((readState w).setPaused operation paused) }

def emergencyPauseAll (approvers : List Address) (w : World Address) :
    Outcome GuardError (World Address) := do
  validateMultiSig auth approvers w
  pure { w with pauseState := some (BitVec.allOnes 32) }

def resumeAll (approvers : List Address) (w : World Address) :
    Outcome GuardError (World Address) := do
  validateMultiSig auth approvers w
  pure { w with pauseState := some 0 }

def unpause (operation : BitVec 32) (w : World Address) : Outcome GuardError (World Address) :=
  setPauseState operation false w

def unpauseAll : Outcome GuardError (World Address) :=
  pure { w with pauseState := some 0 }

/-! ## The committee -/

/-- The threshold is compared with the length of the list, repetitions included. -/
def initGuard (admins : List Address) (threshold : ℕ) (w : World Address) :
    Outcome GuardError (World Address) := do
  reject (w.admins.isSome = true) .alreadyInitialized
  reject (threshold = 0 ∨ admins.length < threshold) .invalidThreshold
  pure { admins := some admins, signatureThreshold := some threshold, pauseState := some 0 }

def addAdmin (approvers : List Address) (newAdmin : Address)
    (w : World Address) : Outcome GuardError (World Address) := do
  validateMultiSig auth approvers w
  let admins := getAdmins w
  if admins.any (· = newAdmin) then pure w
  else pure { w with admins := some (admins ++ [newAdmin]) }

/-- Removal drops every copy of the admin, after a check of the length of the old list. -/
def removeAdmin (approvers : List Address) (admin : Address)
    (w : World Address) : Outcome GuardError (World Address) := do
  validateMultiSig auth approvers w
  let admins := getAdmins w
  reject (admins.length ≤ getThreshold w) .invalidThreshold
  let newAdmins := admins.filter (· ≠ admin)
  reject (¬ admins.any (· = admin)) .adminNotFound
  pure { w with admins := some newAdmins }

/-- Rotation drops every copy of both admins and appends the new one once. -/
def rotateAdmin (approvers : List Address) (oldAdmin newAdmin : Address)
    (w : World Address) : Outcome GuardError (World Address) := do
  validateMultiSig auth approvers w
  let admins := getAdmins w
  reject (¬ admins.any (· = oldAdmin)) .adminNotFound
  let newAdmins := admins.filter (fun a => a ≠ oldAdmin ∧ a ≠ newAdmin) ++ [newAdmin]
  reject (newAdmins.length < getThreshold w) .invalidThreshold
  pure { w with admins := some newAdmins }

/-! ## The system -/

inductive Call (Address : Type) where
  | setPauseState (operation : BitVec 32) (paused : Bool)
  | setPauseByAdmin (admin : Address) (operation : BitVec 32) (paused : Bool)
  | emergencyPauseAll (approvers : List Address)
  | resumeAll (approvers : List Address)
  | unpauseAll
  | addAdmin (approvers : List Address) (newAdmin : Address)
  | removeAdmin (approvers : List Address) (admin : Address)
  | rotateAdmin (approvers : List Address) (oldAdmin newAdmin : Address)

def exec (w : World Address) :
    Call Address → Outcome GuardError (World Address)
  | .setPauseState operation paused => setPauseState operation paused w
  | .setPauseByAdmin admin operation paused => setPauseByAdmin auth admin operation paused w
  | .emergencyPauseAll approvers => emergencyPauseAll auth approvers w
  | .resumeAll approvers => resumeAll auth approvers w
  | .unpauseAll => unpauseAll w
  | .addAdmin approvers newAdmin => addAdmin auth approvers newAdmin w
  | .removeAdmin approvers admin => removeAdmin auth approvers admin w
  | .rotateAdmin approvers oldAdmin newAdmin => rotateAdmin auth approvers oldAdmin newAdmin w

def Step (action : (Address → Bool) × Call Address) (w' : World Address) : Prop :=
  exec action.1 w action.2 = .ok w'

def InitialWith (admins : List Address) (threshold : ℕ) (w : World Address) : Prop :=
  initGuard admins threshold {} = .ok w

end Core

end Guards
