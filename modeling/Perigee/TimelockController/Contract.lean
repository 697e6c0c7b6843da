import Perigee.Data.Sha256
import Perigee.Soroban.Nested
import Perigee.Soroban.Store

/-!
# The timelock controller

Calls are queued, and may be executed once a minimum delay has passed.  The file follows
`contracts/timelock_controller/src/lib.rs`.  `execute` calls the target in the middle, so it is cut
in two there; `operationId`, the SHA-256 of the encoded call, is a parameter.  The controller may be
its own target, so any address can have authorized a call.
-/

namespace TimelockController

open Soroban
open Sha256 (Digest)

def maxDelaySeconds : ℕ := 7776000

inductive Error where
  | alreadyInitialized
  | notInitialized
  | unauthorized
  | invalidDelay
  | operationAlreadyExists
  | operationNotFound
  | operationNotPending
  | operationNotReady
  | timeOverflow
  deriving DecidableEq

inductive OperationStatus where
  | pending
  | executing
  | done
  | canceled
  deriving DecidableEq

structure ControllerConfig (Address : Type) where
  admin : Address
  proposer : Address
  executor : Address
  canceller : Address
  minDelay : ℕ
  deriving DecidableEq

/-- A call of a target, told apart from others by its salt. -/
structure Invocation (Address Val : Type) where
  target : Address
  function : String
  args : List Val
  salt : Digest
  deriving DecidableEq

structure Operation (Address Val Id : Type) extends Invocation Address Val where
  id : Id
  proposer : Address
  queuedAt : ℕ
  readyAt : ℕ
  status : OperationStatus
  deriving DecidableEq

structure World (Address Val Id : Type) where
  config : Option (ControllerConfig Address) := none
  operations : Store Id (Operation Address Val Id) := ∅

structure Host (Address : Type) where
  timestamp : ℕ
  auth : Address → Bool

variable {Address Val Id : Type} [DecidableEq Address] [DecidableEq Id]

/-! ## Helpers -/

def loadConfig (w : World Address Val Id) : Outcome Error (ControllerConfig Address) :=
  okOr w.config .notInitialized

variable (host : Host Address)

def requireAuth (a : Address) : Outcome Error Unit :=
  if host.auth a then .ok () else .error .trap

def requireRole (caller expected : Address) : Outcome Error Unit := do
  reject (caller ≠ expected) .unauthorized
  requireAuth host caller

def loadOperation (w : World Address Val Id) (id : Id) : Outcome Error (Operation Address Val Id) :=
  okOr (w.operations.lookup id) .operationNotFound

def saveOperation (w : World Address Val Id) (operation : Operation Address Val Id) :
    World Address Val Id :=
  { w with operations := w.operations.set operation.id operation }

def checkedU64 (x : ℕ) : Outcome Error ℕ :=
  if x < 2 ^ 64 then .ok x else .error (.err .timeOverflow)

/-! ## Entry points -/

def initializeController (admin proposer executor canceller : Address)
    (minDelay : ℕ) (w : World Address Val Id) : Outcome Error (World Address Val Id) := do
  reject (w.config.isSome = true) .alreadyInitialized
  reject (minDelay = 0 ∨ maxDelaySeconds < minDelay) .invalidDelay
  requireAuth host admin
  pure { w with config := some { admin, proposer, executor, canceller, minDelay } }

/-- Queue a call.  A call that was queued before must have been canceled. -/
def queue (operationId : Invocation Address Val → Id) (host : Host Address)
    (proposer : Address) (call : Invocation Address Val) (w : World Address Val Id) :
    Outcome Error (Operation Address Val Id × World Address Val Id) := do
  let config ← loadConfig w
  requireRole host proposer config.proposer
  let readyAt ← checkedU64 (host.timestamp + config.minDelay)
  let id := operationId call
  reject (∃ existing ∈ w.operations.lookup id, existing.status ≠ .canceled)
    .operationAlreadyExists
  let operation : Operation Address Val Id :=
    { call with id, proposer, queuedAt := host.timestamp, readyAt, status := .pending }
  pure (operation, saveOperation w operation)

/-- `execute` up to the call of the target. -/
def execute (executor : Address) (id : Id) (w : World Address Val Id) :
    Outcome Error (Operation Address Val Id × World Address Val Id) := do
  let config ← loadConfig w
  requireRole host executor config.executor
  let operation ← loadOperation w id
  reject (operation.status ≠ .pending) .operationNotPending
  reject (host.timestamp < operation.readyAt) .operationNotReady
  let executing := { operation with status := .executing }
  pure (executing, saveOperation w executing)

def finishExecute (operation : Operation Address Val Id) (w : World Address Val Id) :
    World Address Val Id :=
  saveOperation w { operation with status := .done }

def cancel (canceller : Address) (id : Id) (w : World Address Val Id) :
    Outcome Error (Operation Address Val Id × World Address Val Id) := do
  let config ← loadConfig w
  requireRole host canceller config.canceller
  let operation ← loadOperation w id
  reject (operation.status ≠ .pending) .operationNotPending
  let canceled := { operation with status := .canceled }
  pure (canceled, saveOperation w canceled)

def setMinDelay (admin : Address) (minDelay : ℕ) (w : World Address Val Id) :
    Outcome Error (World Address Val Id) := do
  let config ← loadConfig w
  requireRole host admin config.admin
  reject (minDelay = 0 ∨ maxDelaySeconds < minDelay) .invalidDelay
  pure { w with config := some { config with minDelay } }

def setRoles (admin proposer executor canceller : Address)
    (w : World Address Val Id) : Outcome Error (World Address Val Id) := do
  let config ← loadConfig w
  requireRole host admin config.admin
  pure { w with config := some { config with proposer, executor, canceller } }

def transferAdmin (admin newAdmin : Address) (w : World Address Val Id) :
    Outcome Error (World Address Val Id) := do
  let config ← loadConfig w
  requireRole host admin config.admin
  pure { w with config := some { config with admin := newAdmin } }

end TimelockController
