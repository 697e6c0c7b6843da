import Perigee.TwoPhaseCommit.Transaction

/-!
# The coordinator of the two-phase commit

The coordinator sends prepare, commit and abort messages to the participants of a transaction.  A
participant is the set of operations it supports, known by its place in the list; what it answers is
given by `answers`.  The file follows the second half of `core/src/two_phase_commit.rs` and records
the messages in the order in which they are sent.
-/

namespace TwoPhaseCommit

/-- `TransactionParticipant::supports`. -/
abbrev Participant := String → Bool

structure Entry where
  participant : ℕ
  operation : String
  deriving DecidableEq

inductive MessageKind where
  | prepare
  | commit
  | abort
  deriving DecidableEq

structure Message where
  kind : MessageKind
  entry : Entry
  deriving DecidableEq

abbrev Answers := Message → Except String Unit

inductive TransactionError where
  | invalid (message : String)
  | prepare (operation message : String) (cleanupErrors : List String)
  | commit (operation message : String) (cleanupErrors : List String)
  | cleanup (message : String)
  deriving DecidableEq

/-- The result of a call of the coordinator, the transaction after it and the messages sent. -/
structure Sent (α : Type) where
  result : Except TransactionError α
  tx : TwoPhaseTx
  messages : List Message

def entries (participants : List Participant) (operations : List String) : List Entry :=
  participants.zipIdx.flatMap fun p => (operations.filter p.1).map fun operation => ⟨p.2, operation⟩

/-! ## Aborting -/

def abortError (answers : Answers) (entry : Entry) : Option String :=
  match answers ⟨.abort, entry⟩ with
  | .error error => some (entry.operation ++ ": " ++ error)
  | .ok _ => none

/-- Send an abort to every entry, last one first. -/
def abortEntries (answers : Answers) (entries : List Entry) : List String × List Message :=
  (entries.reverse.filterMap (abortError answers), entries.reverse.map (⟨.abort, ·⟩))

def finishAbort (clock : ℤ) (answers : Answers) (tx : TwoPhaseTx) (entries : List Entry) :
    List String × TwoPhaseTx × List Message :=
  let (cleanupErrors, messages) := abortEntries answers entries
  (cleanupErrors, if cleanupErrors.isEmpty then tx.abort else tx.markCleanupFailed clock, messages)

/-! ## Executing -/

/-- Send a prepare to one entry after another until one fails.  The entries that were sent one are
returned, with the operation and message of the failure. -/
def prepareAll (answers : Answers) : List Entry → Option (String × String) × List Entry
  | [] => (none, [])
  | entry :: rest =>
    match answers ⟨.prepare, entry⟩ with
    | .error message => (some (entry.operation, message), [entry])
    | .ok _ => ((prepareAll answers rest).1, entry :: (prepareAll answers rest).2)

/-- Send a commit to one entry after another until one fails, recording every operation at its first
commit. -/
def commitAll (clock : ℤ) (answers : Answers) (committed : List String) (tx : TwoPhaseTx) :
    List Entry → Option (String × String) × TwoPhaseTx × List Message
  | [] => (none, tx, [])
  | entry :: rest =>
    match answers ⟨.commit, entry⟩ with
    | .error message => (some (entry.operation, message), tx, [⟨.commit, entry⟩])
    | .ok _ =>
      if entry.operation ∈ committed then
        let (failure, tx, messages) := commitAll clock answers committed tx rest
        (failure, tx, ⟨.commit, entry⟩ :: messages)
      else
        match tx.recordCommitOp clock entry.operation with
        | (.error message, tx) => (some (entry.operation, message), tx, [⟨.commit, entry⟩])
        | (.ok _, tx) =>
          let (failure, tx, messages) :=
            commitAll clock answers (entry.operation :: committed) tx rest
          (failure, tx, ⟨.commit, entry⟩ :: messages)

/-- The second phase of `execute`, after every entry is prepared. -/
def commitPhase (clock : ℤ) (answers : Answers) (tx : TwoPhaseTx) (prepared : List Entry) :
    Sent Unit :=
  match commitAll clock answers [] tx prepared with
  | (some (operation, message), tx, messages) =>
    let (cleanupErrors, tx, aborts) := finishAbort clock answers tx prepared
    ⟨.error (.commit operation message cleanupErrors), tx, messages ++ aborts⟩
  | (none, tx, messages) =>
    match tx.commit with
    | (.error message, tx) =>
      let (cleanupErrors, tx, aborts) := finishAbort clock answers tx prepared
      ⟨.error (.commit "all" message cleanupErrors), tx, messages ++ aborts⟩
    | (.ok _, tx) => ⟨.ok (), tx, messages⟩

def execute (clock : ℤ) (answers : Answers) (participants : List Participant) (tx : TwoPhaseTx) :
    Sent Unit :=
  if participants.isEmpty then
    ⟨.error (.invalid "at least one transaction participant is required"), tx, []⟩
  else match tx.prepare clock with
    | (false, tx) => ⟨.error (.invalid "transaction could not be prepared"), tx, []⟩
    | (true, tx) =>
      let supported := entries participants tx.operations
      if (supported.map Entry.operation).dedup.length ≠ tx.operations.length then
        ⟨.error (.invalid "every transaction operation must have a supporting participant"),
          tx.abort, []⟩
      else match prepareAll answers supported with
        | (some (operation, message), prepared) =>
          let (cleanupErrors, tx, aborts) := finishAbort clock answers tx prepared
          ⟨.error (.prepare operation message cleanupErrors), tx,
            prepared.map (⟨.prepare, ·⟩) ++ aborts⟩
        | (none, prepared) =>
          if prepared.isEmpty then
            ⟨.error (.invalid "no participant supports a transaction operation"), tx.abort, []⟩
          else
            let second := commitPhase clock answers tx prepared
            { second with messages := prepared.map (⟨.prepare, ·⟩) ++ second.messages }

/-! ## Aborting and recovering a transaction -/

def coordinatorAbort (clock : ℤ) (answers : Answers) (participants : List Participant)
    (tx : TwoPhaseTx) : Sent Unit :=
  let (cleanupErrors, tx, messages) :=
    finishAbort clock answers tx (entries participants tx.operations)
  ⟨if cleanupErrors.isEmpty then .ok () else .error (.cleanup ("; ".intercalate cleanupErrors)),
    tx, messages⟩

def recover (clock : ℤ) (answers : Answers) (participants : List Participant) (tx : TwoPhaseTx) :
    Sent RecoveryResult :=
  if tx.isFullyCommitted then ⟨.ok ⟨tx.txId, "retained_committed"⟩, tx, []⟩
  else if tx.phase = .rolledBack then ⟨.ok ⟨tx.txId, "retained_aborted"⟩, tx, []⟩
  else if tx.phase = .failed then
    match tx.prepare clock with
    | (true, tx) => ⟨.ok ⟨tx.txId, "reprepared"⟩, tx, []⟩
    | (false, tx) => ⟨.ok ⟨tx.txId, "rolled_back_invalid"⟩, tx.abort, []⟩
  else if tx.phase ≠ .aborting ∧ tx.isStale clock = false then
    ⟨.ok ⟨tx.txId, "retained_fresh"⟩, tx, []⟩
  else
    let (cleanupErrors, tx, messages) :=
      finishAbort clock answers tx (entries participants tx.operations)
    ⟨if cleanupErrors.isEmpty then .ok ⟨tx.txId, "rolled_back_stale"⟩
      else .error (.cleanup ("; ".intercalate cleanupErrors)), tx, messages⟩

end TwoPhaseCommit
