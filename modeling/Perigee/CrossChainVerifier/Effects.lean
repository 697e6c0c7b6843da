import Perigee.CrossChainVerifier.Contract

/-!
# What a call of the verifier does

Signers change by `add_authorized_signer` and `remove_authorized_signer` only, and nonces are
consumed by `verify_message_and_consume` only.
-/

namespace CrossChainVerifier

open Soroban
open Sha256 (Digest)
open Wire

variable {Address : Type} {crypto : Crypto} {auth : Address → Bool} {w w' : World Address}
  {call : Call Address} {events : List Event} {blockHeight : UInt32} {proof : List Digest}
  {proofFlags : List Bool}

inductive Effect (crypto : Crypto) (w : World Address) :
    Call Address → List Event → World Address → Prop
  | other {call : Call Address} {events : List Event} {w' : World Address}
      (signers : w'.signerAlgorithm = w.signerAlgorithm)
      (revocations : w'.signerRevocationNonce = w.signerRevocationNonce)
      (nonces : w'.processedNonce = w.processedNonce)
      (plain : ∀ event ∈ events,
        ∃ signedMessage protocol, event = .verified signedMessage protocol) :
      Effect crypto w call events w'
  | added {publicKey : Bytes} {algorithm : SignatureAlgorithm} {count : ℕ} :
      Effect crypto w (.addAuthorizedSigner publicKey algorithm) []
        { w with
          signerAlgorithm := w.signerAlgorithm.set publicKey algorithm
          signerRevocationNonce := w.signerRevocationNonce.set publicKey 0
          signerCount := count }
  | removed {publicKey : Bytes} {nonce : ℕ} :
      Effect crypto w (.removeAuthorizedSigner publicKey) [.removed publicKey]
        { w with
          signerAlgorithm := w.signerAlgorithm.remove publicKey
          signerRevocationNonce := w.signerRevocationNonce.set publicKey nonce
          signerCount := w.signerCount - 1 }
  | consumed {blockHeight : UInt32} {root : Digest} {nonce : UInt64} {leaf : Digest}
      {proof : List Digest} {proofFlags : List Bool}
      (fresh : isNonceProcessed nonce w = false)
      (posted : w.stateRoot.lookup blockHeight = some root)
      (lengths : proof.length = proofFlags.length)
      (reaches : (proof.zip proofFlags).foldl (hashSibling crypto) leaf = root) :
      Effect crypto w (.verifyMessageAndConsume blockHeight nonce leaf proof proofFlags)
        [.consumed ⟨blockHeight, root, nonce, leaf, proof.zip proofFlags⟩] (consumeNonce nonce w)

theorem verifyMerkleProof_iff {leaf : Digest} :
    verifyMerkleProof crypto leaf blockHeight proof proofFlags w = true ↔
      ∃ root, w.stateRoot.lookup blockHeight = some root ∧ proof.length = proofFlags.length ∧
        (proof.zip proofFlags).foldl (hashSibling crypto) leaf = root := by
  unfold verifyMerkleProof
  cases w.stateRoot.lookup blockHeight with
  | none => simp
  | some =>
    simp only [Option.some.injEq, exists_eq_left', ite_not, Bool.if_false_right, decide_eq_true_eq,
      Bool.and_eq_true]

/-- A signed message is accepted exactly if it passes every check. -/
theorem verifySignedMessageWithProtocol_iff {signedMessage : SignedMessage}
    {protocol : BridgeProtocol} {bridgeProof : BridgeProof} :
    (verifySignedMessageWithProtocol crypto signedMessage protocol bridgeProof blockHeight proof
        proofFlags w).1 = true ↔
      isProtocolEnabled protocol w = true ∧
        validateForProtocol signedMessage.message bridgeProof protocol = true ∧
        verifySignatureForProtocol crypto signedMessage protocol bridgeProof w = true ∧
        w.processedMessages.has
          (hashForProtocol crypto signedMessage.message bridgeProof protocol) = false ∧
        verifyMerkleProof crypto (hashForProtocol crypto signedMessage.message bridgeProof protocol)
          blockHeight proof proofFlags w = true := by
  unfold verifySignedMessageWithProtocol
  dsimp only
  split_ifs <;> simp_all

theorem Effect.of_marked (marked : ∃ processedMessages, w' = { w with processedMessages })
    (accepted : Bool) (signedMessage : SignedMessage) (protocol : BridgeProtocol) :
    Effect crypto w call (if accepted then [.verified signedMessage protocol] else []) w' := by
  obtain ⟨_, rfl⟩ := marked
  refine .other rfl rfl rfl fun _ member => ⟨signedMessage, protocol, ?_⟩
  split_ifs at member
  · exact List.mem_singleton.1 member
  · exact absurd member List.not_mem_nil

theorem exec_effect (h : exec crypto auth w call = .ok (events, w')) :
    Effect crypto w call events w' := by
  have silent : ∀ event ∈ ([] : List Event),
      ∃ signedMessage protocol, event = .verified signedMessage protocol :=
    fun _ member => absurd member List.not_mem_nil
  cases call <;>
    simp only [exec, initializeVerifier, enableBridgeProtocol, updateRoot, addAuthorizedSigner,
      removeAuthorizedSigner, verifyMessageAndConsume, ok_iff, Bool.not_eq_true] at h
  case initializeVerifier | updateRoot =>
    obtain ⟨_, ⟨_, -, rfl⟩, rfl, rfl⟩ := h
    exact .other rfl rfl rfl silent
  case enableBridgeProtocol =>
    obtain ⟨_, ⟨_, -, branch⟩, rfl, rfl⟩ := h
    split_ifs at branch <;> obtain rfl := pure_ok_iff.1 branch <;>
      exact .other rfl rfl rfl silent
  case addAuthorizedSigner =>
    obtain ⟨_, ⟨_, -, _, -, _, -, rfl⟩, rfl, rfl⟩ := h
    exact .added
  case removeAuthorizedSigner =>
    obtain ⟨_, ⟨_, -, _, -, _, -, rfl⟩, rfl, rfl⟩ := h
    exact .removed
  case verifySignedMessage | verifySignedMessageWithProtocol =>
    obtain ⟨rfl, rfl⟩ := h
    refine .of_marked ?_ _ _ _
    simp only [verifySignedMessage, verifySignedMessageWithProtocol]
    split_ifs <;> exact ⟨_, rfl⟩
  case verifyMessage =>
    obtain ⟨rfl, rfl⟩ := h
    exact .other rfl rfl rfl silent
  case verifyMessageAndConsume =>
    obtain ⟨_, ⟨_, fresh, branch⟩, rfl, rfl⟩ := h
    split_ifs at branch with refused
    · obtain rfl := pure_ok_iff.1 branch
      exact .other rfl rfl rfl silent
    · obtain rfl := pure_ok_iff.1 branch
      obtain ⟨_, posted, lengths, reaches⟩ :=
        verifyMerkleProof_iff.1 ((Bool.not_eq_false _).mp refused)
      simp only [posted]
      exact .consumed fresh posted lengths reaches

theorem step_effect {s s' : Traced Address} {action : Action Address}
    (step : Step crypto s action s') :
    (∃ signing, action = .sign signing ∧ s'.log = s.log ++ [.signed signing] ∧
        s'.world = s.world) ∨
      ∃ auth call events, action = .call auth call ∧ s'.log = s.log ++ events ∧
        Effect crypto s.world call events s'.world := by
  cases action with
  | sign signing =>
    obtain rfl := pure_ok_iff.1 step
    exact .inl ⟨signing, rfl, rfl, rfl⟩
  | call auth call =>
    obtain ⟨⟨events, _⟩, executed, done⟩ := bind_ok_iff.1 step
    obtain rfl := pure_ok_iff.1 done
    exact .inr ⟨auth, call, events, rfl, rfl, exec_effect executed⟩

end CrossChainVerifier
