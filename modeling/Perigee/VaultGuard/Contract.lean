import Perigee.Soroban.Timed

/-!
# The vault guard

An admin pauses a vault, as a whole or some of its operations; a guardian trips the circuit breaker,
which pauses everything; anyone lifts a global pause once it has aged.  The file follows
`contracts/vault_guard/src/lib.rs`.
-/

namespace VaultGuard

open Soroban

def unpauseDelayLedgers : ℕ := 17280

/-! ## Operations -/

inductive Operation where
  | deposit
  | withdraw
  | rotate
  | feeChange
  | upgrade
  deriving DecidableEq

def Operation.bit : Operation → BitVec 32
  | deposit => 1#32 <<< 0
  | withdraw => 1#32 <<< 1
  | rotate => 1#32 <<< 2
  | feeChange => 1#32 <<< 3
  | upgrade => 1#32 <<< 4

def opAll : BitVec 32 :=
  Operation.deposit.bit ||| Operation.withdraw.bit ||| Operation.rotate.bit |||
    Operation.feeChange.bit ||| Operation.upgrade.bit

/-! ## Storage -/

inductive Error where
  | notInitialized
  | alreadyInitialized
  | unauthorized
  | alreadyPaused
  | notPaused
  | unpauseTooEarly
  | notGuardian
  | unknownOperation
  | operationNotPaused
  | alreadyTripped
  deriving DecidableEq

structure GuardState (Address : Type) where
  allPaused : Bool
  pausedOperations : BitVec 32
  /-- The ledger at which the current pause began, `0` when nothing is paused. -/
  pausedAt : ℕ
  tripped : Bool
  trippedBy : Option Address
  deriving DecidableEq

structure GuardRoles (Address : Type) where
  admin : Address
  guardian : Address
  deriving DecidableEq

structure World (Address : Type) where
  roles : Option (GuardRoles Address) := none
  state : Option (GuardState Address) := none
  deriving DecidableEq

structure Host (Address : Type) where
  /-- The ledger sequence number. -/
  sequence : ℕ
  /-- The addresses that authorized the call. -/
  auth : Address → Bool

abbrev Result (α : Type) := Outcome Error α

section Contract

variable {Address : Type} [DecidableEq Address]

/-! ## Helpers -/

variable (host : Host Address)

def requireAuth (addr : Address) : Result Unit := ensure (host.auth addr)

def loadRoles (w : World Address) : Result (GuardRoles Address) := okOr w.roles .notInitialized

def loadState (w : World Address) : Result (GuardState Address) := okOr w.state .notInitialized

def saveState (state : GuardState Address) (w : World Address) : World Address :=
  { w with state := some state }

def requireAdmin (caller : Address) (w : World Address) : Result Unit := do
  let roles ← loadRoles w
  reject (caller ≠ roles.admin) .unauthorized
  requireAuth host caller

def requireGuardian (caller : Address) (w : World Address) : Result Unit := do
  let roles ← loadRoles w
  reject (caller ≠ roles.guardian) .notGuardian
  requireAuth host caller

def validateMask (mask : BitVec 32) : Result Unit :=
  reject (mask &&& ~~~opAll ≠ 0) .unknownOperation

/-! ## Entry points -/

def initializeGuard (admin guardian : Address) (w : World Address) : Result (World Address) := do
  reject (w.roles.isSome = true) .alreadyInitialized
  reject (admin = guardian) .unauthorized
  requireAuth host admin
  pure <| saveState ⟨false, 0, 0, false, none⟩ { w with roles := some ⟨admin, guardian⟩ }

def pause (caller : Address) (w : World Address) : Result (World Address) := do
  requireAdmin host caller w
  let state ← loadState w
  reject (state.allPaused = true) .alreadyPaused
  pure <| saveState { state with allPaused := true, pausedAt := host.sequence } w

def pauseOperations (caller : Address) (mask : BitVec 32)
    (w : World Address) : Result (World Address) := do
  requireAdmin host caller w
  validateMask mask
  let state ← loadState w
  let requested := mask &&& ~~~state.pausedOperations
  reject (requested = 0) .alreadyPaused
  let pausedOperations := state.pausedOperations ||| mask
  let pausedAt :=
    if pausedOperations ≠ 0 ∧ state.pausedAt = 0 then host.sequence else state.pausedAt
  pure <| saveState { state with pausedOperations, pausedAt } w

def resumeOperations (caller : Address) (mask : BitVec 32)
    (w : World Address) : Result (World Address) := do
  requireAdmin host caller w
  validateMask mask
  let state ← loadState w
  reject (mask &&& ~~~state.pausedOperations ≠ 0) .operationNotPaused
  let pausedOperations := state.pausedOperations &&& ~~~mask
  let pausedAt := if pausedOperations = 0 then 0 else state.pausedAt
  pure <| saveState { state with pausedOperations, pausedAt } w

/-- The caller may be anyone: the gate is time, not identity. -/
def unpause (caller : Address) (w : World Address) : Result (World Address) := do
  let state ← loadState w
  reject (state.allPaused = false) .notPaused
  requireAuth host caller
  let elapsed := host.sequence - state.pausedAt
  reject (elapsed < unpauseDelayLedgers) .unpauseTooEarly
  pure <| saveState { state with allPaused := false, pausedAt := 0 } w

def trip (caller : Address) (w : World Address) : Result (World Address) := do
  requireGuardian host caller w
  let state ← loadState w
  reject (state.tripped = true) .alreadyTripped
  pure <| saveState { state with
    allPaused := true, pausedAt := host.sequence, tripped := true, trippedBy := some caller } w

def resetTrip (caller : Address) (w : World Address) : Result (World Address) := do
  requireGuardian host caller w
  let state ← loadState w
  reject (state.tripped = false) .notPaused
  reject (state.allPaused = true) .alreadyPaused
  pure <| saveState { state with tripped := false, trippedBy := none } w

/-- `load_state(..).map(|s| s.all_paused).unwrap_or(false)`. -/
def isGloballyPaused (w : World Address) : Bool := w.state.any GuardState.allPaused

/-! ## Runs -/

inductive Call (Address : Type) where
  | initializeGuard (admin guardian : Address)
  | pause (caller : Address)
  | pauseOperations (caller : Address) (mask : BitVec 32)
  | resumeOperations (caller : Address) (mask : BitVec 32)
  | unpause (caller : Address)
  | trip (caller : Address)
  | resetTrip (caller : Address)

def exec (w : World Address) : Call Address → Result (World Address)
  | .initializeGuard admin guardian => initializeGuard host admin guardian w
  | .pause caller => pause host caller w
  | .pauseOperations caller mask => pauseOperations host caller mask w
  | .resumeOperations caller mask => resumeOperations host caller mask w
  | .unpause caller => unpause host caller w
  | .trip caller => trip host caller w
  | .resetTrip caller => resetTrip host caller w

structure Action (Address : Type) where
  host : Host Address
  call : Call Address

def Action.ledger (action : Action Address) : ℕ := action.host.sequence

def perform (w : World Address) (action : Action Address) : Result (World Address) :=
  exec action.host w action.call

def Step (w : World Address) (action : Action Address) (w' : World Address) : Prop :=
  perform w action = .ok w'

end Contract

end VaultGuard
