import Perigee.Data.Sha256
import Perigee.Data.Wire
import Perigee.Soroban.Index
import Perigee.Soroban.Run

/-!
# Cross-chain verifier

Signed messages and Merkle inclusion proofs from other chains are checked against authorized signers
and posted state roots.  The file follows `contracts/cross_chain_verifier/src/lib.rs` and
`bridge.rs`.  SHA-256 and the verification of signatures are parameters (`Crypto`).
-/

namespace CrossChainVerifier

open Soroban
open Sha256 (Digest)
open Wire

inductive SignatureAlgorithm where
  | ed25519
  | secp256k1
  deriving DecidableEq

structure CrossChainMessage where
  sourceChain : UInt32
  destinationChain : UInt32
  nonce : UInt64
  payload : Bytes
  timestamp : UInt64
  deriving DecidableEq

abbrev Signature := {bytes : Bytes // bytes.length = 64}

structure SignedMessage where
  message : CrossChainMessage
  signature : Signature
  signerPublicKey : Bytes
  algorithm : SignatureAlgorithm
  revocationNonce : ℕ
  deriving DecidableEq

inductive BridgeProtocol where
  | native
  | layerZero
  | wormhole
  deriving DecidableEq

structure BridgeProof where
  protocol : BridgeProtocol
  proofData : Bytes
  deriving DecidableEq

structure Crypto where
  sha256 : Bytes → Digest
  ed25519Verify : Bytes → Digest → Signature → Bool
  secp256k1Verify : Bytes → Digest → Signature → Bool

structure World (Address : Type) where
  admin : Option Address := none
  enabledProtocols : Option (List BridgeProtocol) := none
  stateRoot : Store UInt32 Digest := ∅
  signerAlgorithm : Store Bytes SignatureAlgorithm := ∅
  signerRevocationNonce : Store Bytes ℕ := ∅
  signerCount : ℕ := 0
  processedMessages : Store Digest Bool := ∅
  processedNonce : Store UInt64 Bool := ∅

abbrev Result (α : Type) := Outcome String α

/-! ## Bridge protocols -/

section Bridge

variable (crypto : Crypto) (message : CrossChainMessage) (proof : BridgeProof)

/-- The string that `NativeBridge::hash_message` hashes. -/
def nativeString : Bytes :=
  ascii "CROSS_CHAIN_MESSAGE_V1" ++ (be32 message.sourceChain ++ (be32 message.destinationChain ++
    (be64 message.nonce ++ (be64 message.timestamp ++ (crypto.sha256 message.payload).1))))

def layerZeroString : Bytes :=
  ascii "LZ_PACKET_V1" ++ (be32 message.sourceChain ++ (be32 message.destinationChain ++
    (be64 message.nonce ++ (proof.proofData ++ (crypto.sha256 message.payload).1))))

def wormholeString : Bytes :=
  ascii "WH_VAA_V1" ++ (be32 message.sourceChain ++ (be64 message.nonce ++
    (proof.proofData ++ (crypto.sha256 message.payload).1)))

def stringForProtocol : BridgeProtocol → Bytes
  | .native => nativeString crypto message
  | .layerZero => layerZeroString crypto message proof
  | .wormhole => wormholeString crypto message proof

def hashForProtocol (protocol : BridgeProtocol) : Digest :=
  crypto.sha256 (stringForProtocol crypto message proof protocol)

def validateForProtocol (protocol : BridgeProtocol) : Bool :=
  if proof.protocol ≠ protocol then false
  else
    match protocol with
    | .native => true
    | .layerZero =>
      !(8 ≤ proof.proofData.length ∧ (be32At proof.proofData 0 ≠ message.sourceChain ∨
        be32At proof.proofData 4 ≠ message.destinationChain) : Bool)
    | .wormhole =>
      !(1 ≤ proof.proofData.length ∧
          (proof.proofData.getD 0 0 = 0 ∨ 19 < proof.proofData.getD 0 0) : Bool) &&
        !(5 ≤ proof.proofData.length ∧ be32At proof.proofData 1 ≠ message.sourceChain : Bool)

def emptyNativeProof : BridgeProof := ⟨.native, []⟩

def verifyAlgorithmSignature (algorithm : SignatureAlgorithm) (messageHash : Digest)
    (signature : Signature) (publicKey : Bytes) : Bool :=
  match algorithm with
  | .ed25519 =>
    if publicKey.length ≠ 32 then false else crypto.ed25519Verify publicKey messageHash signature
  | .secp256k1 =>
    if publicKey.length ≠ 33 ∧ publicKey.length ≠ 65 then false
    else crypto.secp256k1Verify publicKey messageHash signature

end Bridge

/-! ## Entry points -/

section Contract

variable {Address : Type} (crypto : Crypto) (auth : Address → Bool)

def adminAuth (w : World Address) : Result Unit := do
  let admin ← unwrap w.admin
  ensure (auth admin)

def initializeVerifier (admin : Address) (w : World Address) : Result (World Address) := do
  reject (w.admin.isSome = true) "already initialized"
  pure { w with admin := some admin, enabledProtocols := some [.native] }

def enableBridgeProtocol (protocol : BridgeProtocol) (w : World Address) :
    Result (World Address) := do
  adminAuth auth w
  let protocols := w.enabledProtocols.getD []
  if protocol ∈ protocols then pure w
  else pure { w with enabledProtocols := some (protocols ++ [protocol]) }

def isProtocolEnabled (protocol : BridgeProtocol) (w : World Address) : Bool :=
  protocol ∈ w.enabledProtocols.getD [.native]

def updateRoot (blockHeight : UInt32) (newRoot : Digest) (w : World Address) :
    Result (World Address) := do
  adminAuth auth w
  pure { w with stateRoot := w.stateRoot.set blockHeight newRoot }

def addAuthorizedSigner (publicKey : Bytes) (algorithm : SignatureAlgorithm) (w : World Address) :
    Result (World Address) := do
  adminAuth auth w
  reject (w.signerAlgorithm.has publicKey = true) "Signer already authorized"
  let count ← u32 (w.signerCount + 1)
  pure { w with
    signerAlgorithm := w.signerAlgorithm.set publicKey algorithm
    signerRevocationNonce := w.signerRevocationNonce.set publicKey 0
    signerCount := count }

def removeAuthorizedSigner (publicKey : Bytes) (w : World Address) : Result (World Address) := do
  adminAuth auth w
  reject (w.signerAlgorithm.has publicKey = false) "Signer not found"
  let nonce ← u64 (w.signerRevocationNonce.getD publicKey 0 + 1)
  pure { w with
    signerAlgorithm := w.signerAlgorithm.remove publicKey
    signerRevocationNonce := w.signerRevocationNonce.set publicKey nonce
    signerCount := w.signerCount - 1 }

def hasAuthorizedSigner (publicKey : Bytes) (w : World Address) : Bool :=
  w.signerAlgorithm.has publicKey

/-- One round of the loop of `verify_merkle_proof`: a sibling, and whether it is on the left. -/
def hashSibling (currentHash : Digest) (step : Digest × Bool) : Digest :=
  crypto.sha256 (if step.2 then step.1.1 ++ currentHash.1 else currentHash.1 ++ step.1.1)

def verifyMerkleProof (leaf : Digest) (blockHeight : UInt32) (proof : List Digest)
    (proofFlags : List Bool) (w : World Address) : Bool :=
  match w.stateRoot.lookup blockHeight with
  | none => false
  | some expectedRoot =>
    if proof.length ≠ proofFlags.length then false
    else (proof.zip proofFlags).foldl (hashSibling crypto) leaf = expectedRoot

def verifySignatureForProtocol (signedMessage : SignedMessage) (protocol : BridgeProtocol)
    (bridgeProof : BridgeProof) (w : World Address) : Bool :=
  match w.signerAlgorithm.lookup signedMessage.signerPublicKey with
  | none => false
  | some signerAlgorithm =>
    if signedMessage.revocationNonce < w.signerRevocationNonce.getD signedMessage.signerPublicKey 0
    then false
    else verifyAlgorithmSignature crypto signerAlgorithm
      (hashForProtocol crypto signedMessage.message bridgeProof protocol) signedMessage.signature
      signedMessage.signerPublicKey

def verifySignedMessageWithProtocol (signedMessage : SignedMessage) (protocol : BridgeProtocol)
    (bridgeProof : BridgeProof) (blockHeight : UInt32) (proof : List Digest)
    (proofFlags : List Bool) (w : World Address) : Bool × World Address :=
  if isProtocolEnabled protocol w = false then (false, w)
  else if validateForProtocol signedMessage.message bridgeProof protocol = false then (false, w)
  else if verifySignatureForProtocol crypto signedMessage protocol bridgeProof w = false then
    (false, w)
  else
    let messageHash := hashForProtocol crypto signedMessage.message bridgeProof protocol
    if w.processedMessages.has messageHash = true then (false, w)
    else if verifyMerkleProof crypto messageHash blockHeight proof proofFlags w = false then
      (false, w)
    else (true, { w with processedMessages := w.processedMessages.set messageHash true })

/-- The legacy entry point. -/
def verifySignedMessage (signedMessage : SignedMessage) (blockHeight : UInt32)
    (proof : List Digest) (proofFlags : List Bool) (w : World Address) : Bool × World Address :=
  verifySignedMessageWithProtocol crypto signedMessage .native emptyNativeProof blockHeight proof
    proofFlags w

def verifyMessage (blockHeight : UInt32) (leaf : Digest) (proof : List Digest)
    (proofFlags : List Bool) (w : World Address) : Bool :=
  verifyMerkleProof crypto leaf blockHeight proof proofFlags w

def isNonceProcessed (nonce : UInt64) (w : World Address) : Bool :=
  w.processedNonce.getD nonce false

def consumeNonce (nonce : UInt64) (w : World Address) : World Address :=
  { w with processedNonce := w.processedNonce.set nonce true }

def verifyMessageAndConsume (blockHeight : UInt32) (nonce : UInt64) (leaf : Digest)
    (proof : List Digest) (proofFlags : List Bool) (w : World Address) :
    Result (Bool × World Address) := do
  reject (isNonceProcessed nonce w = true) "nonce already processed"
  if verifyMessage crypto blockHeight leaf proof proofFlags w = false then pure (false, w)
  else pure (true, consumeNonce nonce w)

end Contract

/-! ## Runs -/

inductive Call (Address : Type) where
  | initializeVerifier (admin : Address)
  | enableBridgeProtocol (protocol : BridgeProtocol)
  | updateRoot (blockHeight : UInt32) (newRoot : Digest)
  | addAuthorizedSigner (publicKey : Bytes) (algorithm : SignatureAlgorithm)
  | removeAuthorizedSigner (publicKey : Bytes)
  | verifySignedMessage (signedMessage : SignedMessage) (blockHeight : UInt32)
      (proof : List Digest) (proofFlags : List Bool)
  | verifySignedMessageWithProtocol (signedMessage : SignedMessage) (protocol : BridgeProtocol)
      (bridgeProof : BridgeProof) (blockHeight : UInt32) (proof : List Digest)
      (proofFlags : List Bool)
  | verifyMessage (blockHeight : UInt32) (leaf : Digest) (proof : List Digest)
      (proofFlags : List Bool)
  | verifyMessageAndConsume (blockHeight : UInt32) (nonce : UInt64) (leaf : Digest)
      (proof : List Digest) (proofFlags : List Bool)

structure Signing where
  publicKey : Bytes
  protocol : BridgeProtocol
  message : CrossChainMessage
  bridgeProof : BridgeProof
  signature : Signature
  deriving DecidableEq

/-- A leaf that `verify_message_and_consume` returned `true` for, with the root it was checked
against and the siblings with their flags. -/
structure Consumption where
  blockHeight : UInt32
  root : Digest
  nonce : UInt64
  leaf : Digest
  path : List (Digest × Bool)
  deriving DecidableEq

inductive Event where
  /-- A signature was produced, outside of the chain. -/
  | signed (signing : Signing)
  /-- A signer was removed. -/
  | removed (publicKey : Bytes)
  /-- A signed message was accepted. -/
  | verified (signedMessage : SignedMessage) (protocol : BridgeProtocol)
  /-- A leaf was accepted and its nonce consumed. -/
  | consumed (consumption : Consumption)
  deriving DecidableEq

structure Traced (Address : Type) where
  world : World Address := {}
  log : List Event := []

/-- A signature outside of the chain, or a call with its authorizations. -/
inductive Action (Address : Type) where
  | sign (signing : Signing)
  | call (auth : Address → Bool) (call : Call Address)

section Runs

variable {Address : Type} (crypto : Crypto)

def exec (auth : Address → Bool) (w : World Address) :
    Call Address → Result (List Event × World Address)
  | .initializeVerifier admin => do pure ([], ← initializeVerifier admin w)
  | .enableBridgeProtocol protocol => do pure ([], ← enableBridgeProtocol auth protocol w)
  | .updateRoot blockHeight newRoot => do pure ([], ← updateRoot auth blockHeight newRoot w)
  | .addAuthorizedSigner publicKey algorithm => do
    pure ([], ← addAuthorizedSigner auth publicKey algorithm w)
  | .removeAuthorizedSigner publicKey => do
    pure ([.removed publicKey], ← removeAuthorizedSigner auth publicKey w)
  | .verifySignedMessage signedMessage blockHeight proof proofFlags =>
    let (accepted, w') := verifySignedMessage crypto signedMessage blockHeight proof proofFlags w
    pure (if accepted then [.verified signedMessage .native] else [], w')
  | .verifySignedMessageWithProtocol signedMessage protocol bridgeProof blockHeight proof
      proofFlags =>
    let (accepted, w') := verifySignedMessageWithProtocol crypto signedMessage protocol bridgeProof
      blockHeight proof proofFlags w
    pure (if accepted then [.verified signedMessage protocol] else [], w')
  | .verifyMessage _ _ _ _ => pure ([], w)
  | .verifyMessageAndConsume blockHeight nonce leaf proof proofFlags => do
    let (accepted, w') ← verifyMessageAndConsume crypto blockHeight nonce leaf proof proofFlags w
    let roots := (w.stateRoot.lookup blockHeight).toList
    pure (if accepted
      then roots.map fun root => .consumed ⟨blockHeight, root, nonce, leaf, proof.zip proofFlags⟩
      else [], w')

def perform (s : Traced Address) : Action Address → Result (Traced Address)
  | .sign signing => pure { s with log := s.log ++ [.signed signing] }
  | .call auth call => do
    let (events, world) ← exec crypto auth s.world call
    pure ⟨world, s.log ++ events⟩

def Step (s : Traced Address) (action : Action Address) (s' : Traced Address) : Prop :=
  perform crypto s action = .ok s'

end Runs

/-! ## A concrete instance -/

/-- SHA-256, with signatures that are the digest and the key. -/
def plainCrypto : Crypto where
  sha256 := Sha256.digest
  ed25519Verify publicKey digest signature := signature.1 = digest.1 ++ publicKey
  secp256k1Verify _ _ _ := false

def signed (call : Call ℕ) : Action ℕ := .call (fun _ => true) call

end CrossChainVerifier
