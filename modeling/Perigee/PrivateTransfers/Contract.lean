import Perigee.Data.Sha256
import Perigee.Soroban.Run
import Perigee.Soroban.Store

/-!
# Private transfers

A transfer spends a nullifier and appends the commitments of two encrypted balances to a hash chain,
the root.  A verifier contract judges the proof that comes with it.  The file follows
`contracts/private_transfer/src/lib.rs`; the hash function is a parameter, to be read as SHA-256.
-/

namespace PrivateTransfers

open Soroban
open Sha256 (Digest)

abbrev Bytes := List UInt8

inductive Error where
  | alreadyInitialized
  | notInitialized
  | unauthorized
  | invalidRoot
  | proofVerificationFailed
  | nullifierAlreadyUsed
  | invalidUpdate
  deriving DecidableEq

structure EncryptedBalanceUpdate where
  commitment : Digest
  ciphertext : Bytes
  deriving DecidableEq

structure PrivateTransfer where
  oldRoot : Digest
  nullifier : Digest
  senderUpdate : EncryptedBalanceUpdate
  recipientUpdate : EncryptedBalanceUpdate
  deriving DecidableEq

structure TransferReceipt where
  previousRoot : Digest
  newRoot : Digest
  nullifier : Digest
  leafIndexStart : ℕ
  deriving DecidableEq

structure World (Address : Type) where
  admin : Option Address := none
  verifier : Option Address := none
  verificationKeyHash : Option Digest := none
  currentRoot : Option Digest := none
  rootHistory : Store Digest Bool := ∅
  rootByIndex : Store ℕ Digest := ∅
  nextLeafIndex : Option ℕ := none
  nullifiers : Store Digest Bool := ∅
  ciphertexts : Store Digest Bytes := ∅

structure Host (Address : Type) where
  /-- The addresses that authorized the call. -/
  auth : Address → Bool
  /-- The answer of a verifier to a verification key, a public input and a proof. -/
  verify : Address → Digest → Digest → Bytes → Bool

abbrev Result (α : Type) := Outcome Error α

section Contract

variable {Address : Type} (sha256 : Bytes → Digest)

/-! ## Roots -/

def zeroRoot : Digest := ⟨List.replicate 32 0, Sha256.length_zeros⟩

def readCurrentRoot (w : World Address) : Result Digest := okOr w.currentRoot .notInitialized

def writeRoot (root : Digest) (index : ℕ) (w : World Address) : World Address :=
  { w with
    currentRoot := some root
    rootHistory := w.rootHistory.set root true
    rootByIndex := w.rootByIndex.set index root }

def rootExists (w : World Address) (root : Digest) : Bool := w.rootHistory.getD root false

def hashConcat (left right : Digest) : Digest := sha256 (left.1 ++ right.1)

def statementHash (transfer : PrivateTransfer) (nextRoot : Digest) : Digest :=
  let senderCipherHash := sha256 transfer.senderUpdate.ciphertext
  let recipientCipherHash := sha256 transfer.recipientUpdate.ciphertext
  sha256 (transfer.oldRoot.1 ++ transfer.nullifier.1 ++ transfer.senderUpdate.commitment.1 ++
    senderCipherHash.1 ++ transfer.recipientUpdate.commitment.1 ++ recipientCipherHash.1 ++
    nextRoot.1)

def nextRootForTransfer (currentRoot : Digest) (transfer : PrivateTransfer) : Digest :=
  let first := hashConcat sha256 currentRoot transfer.senderUpdate.commitment
  hashConcat sha256 first transfer.recipientUpdate.commitment

/-! ## Entry points -/

def requireAuth (host : Host Address) (addr : Address) : Result Unit := ensure (host.auth addr)

def requireAdmin (host : Host Address) (w : World Address) : Result Address := do
  let admin ← okOr w.admin .notInitialized
  requireAuth host admin
  pure admin

def initializeTransfers (admin verifier : Address) (verificationKeyHash initialRoot : Digest)
    (w : World Address) : Result (World Address) := do
  reject (w.admin.isSome = true) .alreadyInitialized
  let root := if initialRoot = zeroRoot then zeroRoot else initialRoot
  pure <| writeRoot root 0 { w with
    admin := some admin
    verifier := some verifier
    verificationKeyHash := some verificationKeyHash
    nextLeafIndex := some 0 }

def setVerifier (host : Host Address) (verifier : Address) (verificationKeyHash : Digest)
    (w : World Address) : Result (World Address) := do
  let _ ← requireAdmin host w
  pure { w with verifier := some verifier, verificationKeyHash := some verificationKeyHash }

def nextLeafIndex (w : World Address) : ℕ := w.nextLeafIndex.getD 0

def isNullifierUsed (w : World Address) (nullifier : Digest) : Bool :=
  w.nullifiers.getD nullifier false

def encryptedNote (w : World Address) (commitment : Digest) : Option Bytes :=
  w.ciphertexts.lookup commitment

/-- The new root continues the root that the transfer names, which may be any root there was. -/
def applyPrivateTransfer (host : Host Address) (relayer : Address) (transfer : PrivateTransfer)
    (proof : Bytes) (w : World Address) : Result (TransferReceipt × World Address) := do
  requireAuth host relayer
  reject (transfer.senderUpdate.commitment = transfer.recipientUpdate.commitment) .invalidUpdate
  reject (isNullifierUsed w transfer.nullifier = true) .nullifierAlreadyUsed
  reject (rootExists w transfer.oldRoot = false) .invalidRoot
  let currentRoot ← readCurrentRoot w
  let nextRoot := nextRootForTransfer sha256 transfer.oldRoot transfer
  let publicInputHash := statementHash sha256 transfer nextRoot
  let verifier ← okOr w.verifier .notInitialized
  let verificationKeyHash ← okOr w.verificationKeyHash .notInitialized
  let valid := host.verify verifier verificationKeyHash publicInputHash proof
  reject (valid = false) .proofVerificationFailed
  let leafIndexStart := nextLeafIndex w
  let leafIndexEnd := min (leafIndexStart + 2) (2 ^ 32 - 1)
  let ciphertexts :=
    (w.ciphertexts.set transfer.senderUpdate.commitment transfer.senderUpdate.ciphertext).set
      transfer.recipientUpdate.commitment transfer.recipientUpdate.ciphertext
  pure (⟨currentRoot, nextRoot, transfer.nullifier, leafIndexStart⟩,
    writeRoot nextRoot leafIndexEnd { w with
      nullifiers := w.nullifiers.set transfer.nullifier true
      ciphertexts
      nextLeafIndex := some leafIndexEnd })

/-! ## Runs -/

structure Traced (Address : Type) where
  world : World Address := {}
  initial : Option Digest := none
  accepted : List PrivateTransfer := []

inductive Call (Address : Type) where
  | initializeTransfers (admin verifier : Address) (verificationKeyHash initialRoot : Digest)
  | setVerifier (verifier : Address) (verificationKeyHash : Digest)
  | applyPrivateTransfer (relayer : Address) (transfer : PrivateTransfer) (proof : Bytes)

structure Action (Address : Type) where
  host : Host Address
  call : Call Address

def perform (s : Traced Address) (action : Action Address) : Result (Traced Address) :=
  match action.call with
  | .initializeTransfers admin verifier verificationKeyHash initialRoot => do
    let world ← initializeTransfers admin verifier verificationKeyHash initialRoot s.world
    pure { s with world, initial := some initialRoot }
  | .setVerifier verifier verificationKeyHash => do
    let world ← setVerifier action.host verifier verificationKeyHash s.world
    pure { s with world }
  | .applyPrivateTransfer relayer transfer proof => do
    let (_, world) ← applyPrivateTransfer sha256 action.host relayer transfer proof s.world
    pure { s with world, accepted := s.accepted ++ [transfer] }

def Step (s : Traced Address) (action : Action Address) (s' : Traced Address) : Prop :=
  perform sha256 s action = .ok s'

end Contract

end PrivateTransfers
