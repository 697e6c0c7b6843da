import Mathlib

/-!
# Transactions of the two-phase commit

`TwoPhaseTx` is the record of one transaction, and `Reconciler` keeps the transactions that are not
settled.  The file follows the first half of `core/src/two_phase_commit.rs`.  Times are in
nanoseconds, and `clock` is what `Utc::now()` returns during the call.
-/

namespace TwoPhaseCommit

inductive TxPhase where
  | prepared
  | committing
  | committed
  | aborting
  | rolledBack
  | failed
  deriving DecidableEq

def TxPhase.name : TxPhase → String
  | .prepared => "Prepared"
  | .committing => "Committing"
  | .committed => "Committed"
  | .aborting => "Aborting"
  | .rolledBack => "RolledBack"
  | .failed => "Failed"

def staleAfter : ℤ := 30 * 60 * 10 ^ 9

structure TwoPhaseTx where
  txId : String
  phase : TxPhase
  operations : List String
  completedOps : List String
  preparedAt : Option ℤ
  deriving DecidableEq

def isWhitespace (c : Char) : Bool :=
  let n := c.toNat
  (9 ≤ n && n ≤ 13) || n = 32 || n = 133 || n = 160 || n = 5760 || (8192 ≤ n && n ≤ 8202) ||
    n = 8232 || n = 8233 || n = 8239 || n = 8287 || n = 12288

def isBlank (s : String) : Bool := s.toList.all isWhitespace

/-- The loop of `validate_definition` over the operations. -/
def validateOperations (unique : List String) : List String → Except String Unit
  | [] => .ok ()
  | operation :: rest =>
    if isBlank operation then .error "transaction operation must not be empty"
    else if operation ∈ unique then .error ("duplicate transaction operation: " ++ operation)
    else validateOperations (operation :: unique) rest

namespace TwoPhaseTx

variable (clock : ℤ)

def new (txId : String) (operations : List String) : TwoPhaseTx :=
  { txId, phase := .prepared, operations, completedOps := [], preparedAt := some clock }

variable (tx : TwoPhaseTx)

def validateDefinition : Except String Unit :=
  if isBlank tx.txId then .error "transaction id must not be empty"
  else if tx.operations.isEmpty then .error "transaction must contain at least one operation"
  else validateOperations [] tx.operations

def markFailed : TwoPhaseTx :=
  { tx with phase := .failed, completedOps := [], preparedAt := none }

def prepare (tx : TwoPhaseTx) : Bool × TwoPhaseTx :=
  if tx.phase = .committed then (false, tx)
  else if tx.phase ≠ .prepared ∧ tx.phase ≠ .failed ∧ tx.phase ≠ .rolledBack then (false, tx)
  else match tx.validateDefinition with
    | .error _ => (false, tx.markFailed)
    | .ok _ => (true, { tx with phase := .prepared, completedOps := [], preparedAt := some clock })

def prepareAt (clock now : ℤ) (tx : TwoPhaseTx) : Bool × TwoPhaseTx :=
  match tx.prepare clock with
  | (true, tx) => (true, { tx with preparedAt := some now })
  | (false, tx) => (false, tx)

/-- Prepare a transaction that has no time of preparation. -/
def ensurePrepared (tx : TwoPhaseTx) : Bool × TwoPhaseTx :=
  if tx.preparedAt.isNone then tx.prepare clock else (true, tx)

def recordCommitOp (op : String) (tx : TwoPhaseTx) : Except String Unit × TwoPhaseTx :=
  if tx.phase ≠ .prepared ∧ tx.phase ≠ .committing then
    (.error ("Cannot commit in phase " ++ tx.phase.name), tx)
  else match tx.ensurePrepared clock with
    | (false, tx) => (.error "Transaction is not prepared", tx)
    | (true, tx) =>
      match tx.validateDefinition with
      | .error message => (.error message, tx)
      | .ok _ =>
        if op ∉ tx.operations then (.error ("Unknown operation: " ++ op), tx)
        else if op ∈ tx.completedOps then (.error ("Operation already committed: " ++ op), tx)
        else (.ok (), { tx with phase := .committing, completedOps := tx.completedOps ++ [op] })

def commitOp (op : String) (tx : TwoPhaseTx) : Except String Unit × TwoPhaseTx :=
  match tx.recordCommitOp clock op with
  | (.error message, tx) => (.error message, tx)
  | (.ok _, tx) =>
    (.ok (), if tx.completedOps.length = tx.operations.length then { tx with phase := .committed }
      else tx)

def commit (tx : TwoPhaseTx) : Except String Unit × TwoPhaseTx :=
  if tx.operations.isEmpty then (.error "Cannot commit a transaction without operations", tx)
  else if tx.phase = .committed then (.ok (), tx)
  else if tx.phase ≠ .prepared ∧ tx.phase ≠ .committing then
    (.error ("Cannot commit in phase " ++ tx.phase.name), tx)
  else if tx.operations.toFinset ≠ tx.completedOps.toFinset then
    (.error "Cannot commit before every operation is committed", tx)
  else (.ok (), { tx with phase := .committed })

def isFullyCommitted : Bool :=
  decide (tx.phase = .committed) && !tx.operations.isEmpty &&
    decide (tx.completedOps.length = tx.operations.length) &&
    tx.operations.all fun operation => tx.completedOps.contains operation

/-- Abort, which always succeeds.  A committed transaction is rolled back like any other. -/
def abort : TwoPhaseTx :=
  if tx.phase = .rolledBack then tx
  else { tx with phase := .rolledBack, completedOps := [], preparedAt := none }

def rollback : TwoPhaseTx := tx.abort

def markCleanupFailed (tx : TwoPhaseTx) : TwoPhaseTx :=
  { tx with
    phase := .aborting
    completedOps := []
    preparedAt := if tx.preparedAt.isNone then some clock else tx.preparedAt }

def cleanup : TwoPhaseTx :=
  if tx.phase = .prepared ∨ tx.phase = .committing ∨ tx.phase = .aborting ∨ tx.phase = .failed then
    { tx with phase := .rolledBack, completedOps := [], preparedAt := none }
  else tx

def canRetry : Bool :=
  decide (tx.phase = .failed ∨ tx.phase = .rolledBack)

def isTerminal : Bool :=
  decide (tx.phase = .committed ∨ tx.phase = .rolledBack)

def isStale (tx : TwoPhaseTx) : Bool :=
  tx.preparedAt.elim false fun time => decide (staleAfter < clock - time)

end TwoPhaseTx

/-! ## The reconciler -/

structure RecoveryResult where
  txId : String
  action : String
  deriving DecidableEq

structure ReconciliationResult where
  txId : String
  success : Bool
  retried : Bool
  deriving DecidableEq

namespace Reconciler

/-- Store a transaction, in place of the first one with its id. -/
def register (tx : TwoPhaseTx) : List TwoPhaseTx → List TwoPhaseTx
  | [] => [tx]
  | pending :: rest =>
    if pending.txId = tx.txId then tx :: rest else pending :: register tx rest

/-- What `reconcile` does with one transaction. -/
def reconcileTx (clock : ℤ) (tx : TwoPhaseTx) : ReconciliationResult × TwoPhaseTx :=
  if tx.isFullyCommitted then (⟨tx.txId, true, false⟩, tx)
  else if tx.phase = .aborting then (⟨tx.txId, false, false⟩, tx)
  else if tx.isStale clock then (⟨tx.txId, false, false⟩, tx.abort)
  else if tx.canRetry then
    match tx.prepare clock with
    | (true, tx) => (⟨tx.txId, false, true⟩, tx)
    | (false, tx) => (⟨tx.txId, false, false⟩, tx.abort)
  else (⟨tx.txId, false, false⟩, tx)

def cleanupTerminal (pending : List TwoPhaseTx) : List TwoPhaseTx :=
  pending.filter fun tx => !tx.isTerminal

def reconcile (clock : ℤ) (pending : List TwoPhaseTx) :
    List ReconciliationResult × List TwoPhaseTx :=
  (pending.map fun tx => (reconcileTx clock tx).1,
    cleanupTerminal (pending.map fun tx => (reconcileTx clock tx).2))

/-- What `recover_orphaned` does with one transaction. -/
def recoverTx (clock : ℤ) (tx : TwoPhaseTx) : Option RecoveryResult × TwoPhaseTx :=
  if tx.phase = .aborting then (none, tx)
  else if (tx.phase = .prepared ∨ tx.phase = .committing) ∧ tx.isStale clock = true then
    (some ⟨tx.txId, "rolled_back_stale"⟩, tx.abort)
  else (none, tx)

def recoverOrphaned (clock : ℤ) (pending : List TwoPhaseTx) :
    List RecoveryResult × List TwoPhaseTx :=
  (pending.filterMap fun tx => (recoverTx clock tx).1,
    cleanupTerminal (pending.map fun tx => (recoverTx clock tx).2))

end Reconciler

end TwoPhaseCommit
