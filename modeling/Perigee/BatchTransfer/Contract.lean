import Perigee.Soroban.Tokens

/-!
# Batch transfers

A batch is first planned against the sender's balance and then carried out; a list that is too long
for one batch is paid in chunks, one call for each.  The file follows
`contracts/batch_transfer/src/lib.rs`.  The contract stores nothing, so the balances of the tokens
are the whole state.
-/

namespace BatchTransfer

open Soroban

inductive Error where
  | emptyBatch
  | lengthMismatch
  | invalidAmount
  | insufficientBalance
  | batchTooLarge
  deriving DecidableEq

def maxBatchSize : ℕ := 100

inductive ExecutionMode where
  | allOrNothing
  | partialMode
  deriving DecidableEq

inductive TransferFailure where
  | none
  | invalidAmount
  | insufficientBalance
  deriving DecidableEq

structure TransferResult (Address : Type) where
  recipient : Address
  amount : ℤ
  success : Bool
  failure : TransferFailure
  deriving DecidableEq

structure ChunkedSummary where
  successful : ℕ
  failed : ℕ
  chunksProcessed : ℕ
  deriving DecidableEq

abbrev Result (α : Type) := Outcome Error α

section Contract

variable {Address : Type} [DecidableEq Address] {this : Address}

def validateLengths (recipients : List Address) (amounts : List ℤ) : Result Unit := do
  reject (recipients.length = 0) .emptyBatch
  reject (recipients.length ≠ amounts.length) .lengthMismatch
  reject (maxBatchSize < recipients.length) .batchTooLarge

/-- The loop of `simulate_batch`, with the balance that remains. -/
def planFrom (mode : ExecutionMode) :
    ℤ → List (Address × ℤ) → Result (List (TransferResult Address))
  | _, [] => pure []
  | remaining, (recipient, amount) :: rest =>
    if amount ≤ 0 then
      if mode = .allOrNothing then .error (.err .invalidAmount)
      else do
        let results ← planFrom mode remaining rest
        pure (⟨recipient, amount, false, .invalidAmount⟩ :: results)
    else if remaining < amount then
      if mode = .allOrNothing then .error (.err .insufficientBalance)
      else do
        let results ← planFrom mode remaining rest
        pure (⟨recipient, amount, false, .insufficientBalance⟩ :: results)
    else do
      let results ← planFrom mode (remaining - amount) rest
      pure (⟨recipient, amount, true, .none⟩ :: results)

def simulateBatch (token sender : Address) (recipients : List Address) (amounts : List ℤ)
    (mode : ExecutionMode) (t : Tokens Address) : Result (List (TransferResult Address)) := do
  validateLengths recipients amounts
  planFrom mode (t token sender) (recipients.zip amounts)

def carryOut (token sender : Address) :
    List (TransferResult Address) → Tokens Address → Result (Tokens Address)
  | [], t => pure t
  | item :: rest, t =>
    if item.success then do
      let t' ← t.transfer token sender item.recipient item.amount
      carryOut token sender rest t'
    else carryOut token sender rest t

def execute (env : Env this) (token sender : Address) (recipients : List Address)
    (amounts : List ℤ) (mode : ExecutionMode) (t : Tokens Address) :
    Result (List (TransferResult Address) × Tokens Address) := do
  requireAuth env sender
  reject (maxBatchSize < recipients.length) .batchTooLarge
  let plan ← simulateBatch token sender recipients amounts mode t
  let t' ← carryOut token sender plan t
  pure (plan, t')

def executeChunked (env : Env this) (token sender : Address) (recipients : List Address)
    (amounts : List ℤ) (mode : ExecutionMode) (chunkIndex : ℕ) (t : Tokens Address) :
    Result (ChunkedSummary × Tokens Address) := do
  requireAuth env sender
  reject (recipients.length = 0) .emptyBatch
  reject (recipients.length ≠ amounts.length) .lengthMismatch
  let start ← u32 (chunkIndex * maxBatchSize)
  if recipients.length ≤ start then pure (⟨0, 0, 0⟩, t)
  else do
    let full ← u32 (start + maxBatchSize)
    let size := min full recipients.length - start
    let plan ← simulateBatch token sender ((recipients.drop start).take size)
      ((amounts.drop start).take size) mode t
    let t' ← carryOut token sender plan t
    pure (⟨plan.countP (·.success), plan.countP (!·.success), 1⟩, t')

def quote (token sender : Address) (recipients : List Address) (amounts : List ℤ)
    (mode : ExecutionMode) (t : Tokens Address) : Result (List (TransferResult Address)) :=
  simulateBatch token sender recipients amounts mode t

/-! ## A long list in chunks and in one batch -/

/-- The calls for a whole list: chunk `0`, chunk `1` and so on to the last.  A call that fails
leaves the balances as they were, and the next one is made all the same. -/
def executeChunks (env : ℕ → Env this) (token sender : Address) (recipients : List Address)
    (amounts : List ℤ) (mode : ExecutionMode) (t : Tokens Address) : ℕ → Tokens Address
  | 0 => t
  | count + 1 =>
    let before := executeChunks env token sender recipients amounts mode t count
    (attempt (executeChunked (env count) token sender recipients amounts mode count before)
      before).2

def chunkCount (recipients : List Address) : ℕ :=
  (recipients.length + maxBatchSize - 1) / maxBatchSize

/-- What the chunks stand for: `execute` without a bound on the length. -/
def executeUnbounded (env : Env this) (token sender : Address) (recipients : List Address)
    (amounts : List ℤ) (mode : ExecutionMode) (t : Tokens Address) :
    Result (List (TransferResult Address) × Tokens Address) := do
  requireAuth env sender
  reject (recipients.length = 0) .emptyBatch
  reject (recipients.length ≠ amounts.length) .lengthMismatch
  let plan ← planFrom mode (t token sender) (recipients.zip amounts)
  let t' ← carryOut token sender plan t
  pure (plan, t')

end Contract

end BatchTransfer
