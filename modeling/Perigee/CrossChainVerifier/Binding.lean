import Perigee.CrossChainVerifier.Effects

/-!
# What a signature stands for

Signatures are made outside of the chain and recorded in the log.  A signature that verifies is one
of these (`Unforged`), so an accepted message has the digest of a signed one.  The LayerZero and
Wormhole digests leave out the timestamp, and a key that is removed and added again starts with
revocation nonce `0`.
-/

namespace CrossChainVerifier

open Soroban
open Sha256 (Digest)
open Wire

variable {Address : Type} {crypto : Crypto} {w w' : World Address} {call : Call Address}
  {events : List Event} {message message' : CrossChainMessage} {proof proof' : BridgeProof}
  {protocol protocol' : BridgeProtocol} {signedMessage : SignedMessage} {bridgeProof : BridgeProof}
  {log : List Event}

/-! ## Digests -/

theorem stringForProtocol_protocol
    (same : stringForProtocol crypto message proof protocol =
      stringForProtocol crypto message' proof' protocol') : protocol = protocol' := by
  have first := congrArg List.head? same
  cases protocol <;> cases protocol' <;>
    first
    | rfl
    | simp [stringForProtocol, nativeString, layerZeroString, wormholeString, ascii] at first

/-- The native string determines the message, up to collisions of the payload. -/
theorem nativeString_inj (same : nativeString crypto message = nativeString crypto message')
    (payload : crypto.sha256 message.payload = crypto.sha256 message'.payload →
      message.payload = message'.payload) : message = message' := by
  obtain ⟨_, body⟩ := be32_append_inj (List.append_cancel_left same)
  obtain ⟨_, body⟩ := be32_append_inj body
  obtain ⟨_, body⟩ := be64_append_inj body
  obtain ⟨_, body⟩ := be64_append_inj body
  have samePayload := payload (Subtype.ext body)
  cases message
  cases message'
  congr

theorem hashForProtocol_timestamp (other : protocol ≠ .native) (timestamp : UInt64) :
    hashForProtocol crypto { message with timestamp } proof protocol =
      hashForProtocol crypto message proof protocol := by
  cases protocol with
  | native => exact absurd rfl other
  | layerZero | wormhole => rfl

/-! ## Signatures -/

/-- The strings that are hashed for the signed messages and for one more. -/
def hashedStrings (crypto : Crypto) (log : List Event) (message : CrossChainMessage)
    (bridgeProof : BridgeProof) (protocol : BridgeProtocol) : Set Bytes :=
  {message.payload, stringForProtocol crypto message bridgeProof protocol} ∪
    {string | ∃ signing, .signed signing ∈ log ∧ (string = signing.message.payload ∨
      string = stringForProtocol crypto signing.message signing.bridgeProof signing.protocol)}

/-- If the signature of a message verifies, the holder of the key has signed a message with the same
digest. -/
def Unforged (crypto : Crypto) (log : List Event) (signedMessage : SignedMessage)
    (protocol : BridgeProtocol) (bridgeProof : BridgeProof) : Prop :=
  ∀ algorithm, verifyAlgorithmSignature crypto algorithm
      (hashForProtocol crypto signedMessage.message bridgeProof protocol) signedMessage.signature
      signedMessage.signerPublicKey = true →
    ∃ signing, .signed signing ∈ log ∧ signing.publicKey = signedMessage.signerPublicKey ∧
      hashForProtocol crypto signing.message signing.bridgeProof signing.protocol =
        hashForProtocol crypto signedMessage.message bridgeProof protocol

theorem verifySignatureForProtocol_iff :
    verifySignatureForProtocol crypto signedMessage protocol bridgeProof w = true ↔
      ∃ algorithm, w.signerAlgorithm.lookup signedMessage.signerPublicKey = some algorithm ∧
        w.signerRevocationNonce.getD signedMessage.signerPublicKey 0 ≤
          signedMessage.revocationNonce ∧
        verifyAlgorithmSignature crypto algorithm
          (hashForProtocol crypto signedMessage.message bridgeProof protocol)
          signedMessage.signature signedMessage.signerPublicKey = true := by
  unfold verifySignatureForProtocol
  cases w.signerAlgorithm.lookup signedMessage.signerPublicKey with
  | none => simp
  | some =>
    simp only [Option.some.injEq, exists_eq_left']
    split_ifs with revoked
    · simp [revoked]
    · simp [not_lt.1 revoked]

/-! ## Removed signers -/

def NotAgain (s : Traced Address) : Action Address → Prop
  | .call _ (.addAuthorizedSigner publicKey _) =>
    s.world.signerRevocationNonce.has publicKey = false
  | _ => True

instance (s : Traced Address) (action : Action Address) : Decidable (NotAgain s action) := by
  unfold NotAgain
  split <;> infer_instance

/-- Removed keys are not authorized and keep a revocation nonce. -/
def Gone (s : Traced Address) : Prop :=
  ∀ publicKey, .removed publicKey ∈ s.log →
    ¬ hasAuthorizedSigner publicKey s.world = true ∧
      s.world.signerRevocationNonce.has publicKey = true

variable {s s' : Traced Address} {action : Action Address} {actions : List (Action Address)}

theorem Gone.step (gone : Gone s) (notAgain : NotAgain s action) (step : Step crypto s action s') :
    Gone s' := by
  intro publicKey member
  unfold hasAuthorizedSigner
  rcases step_effect step with ⟨_, rfl, log, world⟩ | ⟨_, _, _, rfl, log, effect⟩
  · have before : .removed publicKey ∈ s.log := by simpa [log] using member
    rw [world]
    exact gone publicKey before
  · rw [log, List.mem_append] at member
    generalize s'.world = w' at effect ⊢
    cases effect with
    | other signers revocations _ plain =>
      rw [signers, revocations]
      rcases member with before | new
      · exact gone publicKey before
      · obtain ⟨_, _, impossible⟩ := plain _ new
        exact absurd impossible Event.noConfusion
    | @added publicKey' =>
      obtain ⟨absent, revoked⟩ := gone publicKey (by simpa using member)
      have different : publicKey ≠ publicKey' := by
        rintro rfl
        exact Bool.false_ne_true (notAgain.symm.trans revoked)
      rw [Store.has_set_iff, Store.has_set_iff]
      exact ⟨fun found => absent (found.resolve_left different), .inr revoked⟩
    | @removed publicKey' =>
      rw [Store.has_remove_iff, Store.has_set_iff]
      by_cases same : publicKey = publicKey'
      · exact ⟨fun found => found.1 same, .inl same⟩
      · obtain ⟨absent, revoked⟩ := gone publicKey (by simpa [same] using member)
        exact ⟨fun found => absent found.2, .inr revoked⟩
    | consumed => exact gone publicKey (by simpa using member)

theorem Gone.run (run : Run (Guarded NotAgain (Step crypto)) {} actions s) : Gone s :=
  run.invariant (fun _ member => absurd member List.not_mem_nil) fun _ _ _ gone step =>
    gone.step step.1 step.2

/-! ## Accepted messages -/

/-- Where no key is authorized again, an accepted native message was signed as it is by an
authorized signer, and its signature was not made before a removal of the signer.  Under the other
protocols, a message is accepted with any other timestamp too. -/
theorem accepted_bound (run : Run (Guarded NotAgain (Step crypto)) {} actions s)
    {signedMessage : SignedMessage} {bridgeProof : BridgeProof} {blockHeight : UInt32}
    {proof : List Digest} {proofFlags : List Bool}
    (unforged : Unforged crypto s.log signedMessage protocol bridgeProof)
    (free : Set.InjOn crypto.sha256
      (hashedStrings crypto s.log signedMessage.message bridgeProof protocol))
    (accepted : (verifySignedMessageWithProtocol crypto signedMessage protocol bridgeProof
      blockHeight proof proofFlags s.world).1 = true) :
    (protocol = .native →
      hasAuthorizedSigner signedMessage.signerPublicKey s.world = true ∧
      (∃ signing, .signed signing ∈ s.log ∧ signing.publicKey = signedMessage.signerPublicKey ∧
        signing.protocol = protocol ∧ signing.message = signedMessage.message) ∧
      ∀ before after signing, s.log = before ++ .removed signedMessage.signerPublicKey :: after →
        .signed signing ∈ before → signing.publicKey = signedMessage.signerPublicKey →
        signing.signature ≠ signedMessage.signature) ∧
    (protocol ≠ .native → ∀ timestamp,
      (verifySignedMessageWithProtocol crypto
        { signedMessage with message := { signedMessage.message with timestamp } } protocol
        bridgeProof blockHeight proof proofFlags s.world).1 = true) := by
  constructor
  · rintro rfl
    obtain ⟨-, -, verified, -, -⟩ := verifySignedMessageWithProtocol_iff.1 accepted
    obtain ⟨algorithm, known, -, valid'⟩ := verifySignatureForProtocol_iff.1 verified
    have authorized : hasAuthorizedSigner signedMessage.signerPublicKey s.world = true := by
      rw [hasAuthorizedSigner, Store.has, known]
      rfl
    obtain ⟨signing, member, key, sameHash⟩ := unforged algorithm valid'
    have same := free (.inr ⟨signing, member, .inr rfl⟩) (.inl (.inr rfl)) sameHash
    have native := stringForProtocol_protocol same
    rw [native] at same
    refine ⟨authorized, ⟨signing, member, key, native, nativeString_inj same fun samePayload =>
      free (.inr ⟨signing, member, .inl rfl⟩) (.inl (.inl rfl)) samePayload⟩, ?_⟩
    -- A removed signer would not be authorized any more.
    intro before after signing log _ _ _
    have removed : .removed signedMessage.signerPublicKey ∈ s.log := by simp [log]
    exact (Gone.run run _ removed).1 authorized
  · intro other timestamp
    rw [verifySignedMessageWithProtocol_iff] at accepted ⊢
    obtain ⟨enabled, valid, verified, fresh, included⟩ := accepted
    rw [hashForProtocol_timestamp other]
    refine ⟨enabled, valid, ?_, fresh, included⟩
    rw [verifySignatureForProtocol_iff] at verified ⊢
    rw [hashForProtocol_timestamp other]
    exact verified

def sampleKey : Bytes := List.replicate 32 3

def sampleMessage (destinationChain : UInt32) (timestamp : UInt64) : CrossChainMessage :=
  ⟨1, destinationChain, 42, [112], timestamp⟩

/-- The message to chain `2` at time `1` is signed for a protocol. -/
def sampleSigning (protocol : BridgeProtocol) : Signing where
  publicKey := sampleKey
  protocol := protocol
  message := sampleMessage 2 1
  bridgeProof := ⟨protocol, []⟩
  signature := ⟨(hashForProtocol plainCrypto (sampleMessage 2 1) ⟨protocol, []⟩ protocol).1 ++
    sampleKey, by rw [List.length_append, (hashForProtocol _ _ _ _).2]; rfl⟩

def sampleSigned (protocol : BridgeProtocol) (destinationChain : UInt32) (timestamp : UInt64) :
    SignedMessage :=
  ⟨sampleMessage destinationChain timestamp, (sampleSigning protocol).signature, sampleKey,
    .ed25519, 0⟩

/-- The message is signed, the protocol enabled, and the digest posted as a root. -/
def preparing (protocol : BridgeProtocol) : List (Action ℕ) :=
  [.sign (sampleSigning protocol), signed (.initializeVerifier 0),
    signed (.enableBridgeProtocol protocol),
    signed (.updateRoot 1
      (hashForProtocol plainCrypto (sampleMessage 2 1) ⟨protocol, []⟩ protocol))]

theorem sampleMessage_distinct (protocol : BridgeProtocol) :
    plainCrypto.sha256 (sampleMessage 2 1).payload ≠
      hashForProtocol plainCrypto (sampleMessage 2 1) ⟨protocol, []⟩ protocol := by
  cases protocol <;> decide +kernel

/-- If nothing else is signed, there is no forgery and no collision in a message whose string is
that of the signed one. -/
theorem sample_honest {destinationChain : UInt32} {timestamp : UInt64}
    (only : ∀ signing, .signed signing ∈ log ↔ signing = sampleSigning protocol)
    (same : stringForProtocol plainCrypto (sampleMessage 2 1) ⟨protocol, []⟩ protocol =
      stringForProtocol plainCrypto (sampleMessage destinationChain timestamp) ⟨protocol, []⟩
        protocol) :
    Unforged plainCrypto log (sampleSigned protocol destinationChain timestamp) protocol
        ⟨protocol, []⟩ ∧
      Set.InjOn plainCrypto.sha256 (hashedStrings plainCrypto log
        (sampleSigned protocol destinationChain timestamp).message ⟨protocol, []⟩ protocol) := by
  constructor
  · exact fun _ _ => ⟨sampleSigning protocol, (only _).2 rfl, rfl, congrArg plainCrypto.sha256 same⟩
  · have two : hashedStrings plainCrypto log
        (sampleSigned protocol destinationChain timestamp).message ⟨protocol, []⟩ protocol ⊆
        {(sampleMessage destinationChain timestamp).payload, stringForProtocol plainCrypto
          (sampleMessage destinationChain timestamp) ⟨protocol, []⟩ protocol} := by
      rintro _ (given | ⟨signing, member, made⟩)
      · exact given
      · rw [(only signing).1 member] at made
        rcases made with rfl | rfl
        · exact .inl rfl
        · exact .inr same
    refine (Set.injOn_pair.2 fun equal => ?_).mono two
    exact absurd (equal.trans (congrArg plainCrypto.sha256 same).symm)
      (sampleMessage_distinct protocol)

theorem sample_bound :
    ∃ s : Traced ℕ, Run (Guarded NotAgain (Step plainCrypto)) {}
        (preparing .native ++ [signed (.addAuthorizedSigner sampleKey .ed25519)]) s ∧
      (verifySignedMessageWithProtocol plainCrypto (sampleSigned .native 2 1) .native ⟨.native, []⟩
        1 [] [] s.world).1 = true ∧
      ∃ signing, .signed signing ∈ s.log ∧ signing.publicKey = sampleKey ∧
        signing.protocol = .native ∧ signing.message = sampleMessage 2 1 := by
  obtain ⟨s, run, log, accepted⟩ : ∃ s : Traced ℕ, Run (Guarded NotAgain (Step plainCrypto)) {}
        (preparing .native ++ [signed (.addAuthorizedSigner sampleKey .ed25519)]) s ∧
      s.log = [.signed (sampleSigning .native)] ∧
      (verifySignedMessageWithProtocol plainCrypto (sampleSigned .native 2 1) .native ⟨.native, []⟩
        1 [] [] s.world).1 = true :=
    exists_guarded_run (fun _ _ _ => id) (by decide +kernel)
  have only (signing : Signing) : .signed signing ∈ s.log ↔ signing = sampleSigning .native := by
    simp [log]
  obtain ⟨unforged, free⟩ := sample_honest only rfl
  exact ⟨s, run, accepted, ((accepted_bound run unforged free accepted).1 rfl).2.1⟩

/-- Without collisions and forgeries, a Wormhole message to chain `3` at time `9` is accepted though
only one to chain `2` at time `1` was signed, and a native signature is accepted that was made
before its signer was removed. -/
theorem unsigned_and_revoked_accepted :
    (∃ s : Traced ℕ, Run (Step plainCrypto) {}
        (preparing .wormhole ++ [signed (.addAuthorizedSigner sampleKey .ed25519)]) s ∧
      Unforged plainCrypto s.log (sampleSigned .wormhole 3 9) .wormhole ⟨.wormhole, []⟩ ∧
      Set.InjOn plainCrypto.sha256 (hashedStrings plainCrypto s.log
        (sampleSigned .wormhole 3 9).message ⟨.wormhole, []⟩ .wormhole) ∧
      (verifySignedMessageWithProtocol plainCrypto (sampleSigned .wormhole 3 9) .wormhole
        ⟨.wormhole, []⟩ 1 [] [] s.world).1 = true ∧
      ∀ signing, .signed signing ∈ s.log →
        signing.message ≠ (sampleSigned .wormhole 3 9).message) ∧
    ∃ s : Traced ℕ, Run (Step plainCrypto) {}
        (preparing .native ++ [signed (.addAuthorizedSigner sampleKey .ed25519),
          signed (.removeAuthorizedSigner sampleKey),
          signed (.addAuthorizedSigner sampleKey .ed25519)]) s ∧
      Unforged plainCrypto s.log (sampleSigned .native 2 1) .native ⟨.native, []⟩ ∧
      Set.InjOn plainCrypto.sha256 (hashedStrings plainCrypto s.log
        (sampleSigned .native 2 1).message ⟨.native, []⟩ .native) ∧
      (verifySignedMessageWithProtocol plainCrypto (sampleSigned .native 2 1) .native ⟨.native, []⟩
        1 [] [] s.world).1 = true ∧
      s.log = [.signed (sampleSigning .native), .removed sampleKey] := by
  constructor
  · obtain ⟨s, done, log, accepted⟩ : ∃ s,
        (preparing .wormhole ++ [signed (.addAuthorizedSigner sampleKey .ed25519)]).foldlM
          (perform plainCrypto) {} = .ok s ∧
        s.log = [.signed (sampleSigning .wormhole)] ∧
        (verifySignedMessageWithProtocol plainCrypto (sampleSigned .wormhole 3 9) .wormhole
          ⟨.wormhole, []⟩ 1 [] [] s.world).1 = true := by
      decide +kernel
    have only (signing : Signing) :
        .signed signing ∈ s.log ↔ signing = sampleSigning .wormhole := by
      simp [log]
    obtain ⟨unforged, free⟩ := sample_honest only rfl
    refine ⟨s, Run.of_foldlM (fun _ _ _ => id) done, unforged, free, accepted, ?_⟩
    intro signing member
    rw [(only signing).1 member]
    decide
  · obtain ⟨s, done, accepted, log⟩ : ∃ s,
        (preparing .native ++ [signed (.addAuthorizedSigner sampleKey .ed25519),
          signed (.removeAuthorizedSigner sampleKey),
          signed (.addAuthorizedSigner sampleKey .ed25519)]).foldlM
          (perform plainCrypto) {} = .ok s ∧
        (verifySignedMessageWithProtocol plainCrypto (sampleSigned .native 2 1) .native
          ⟨.native, []⟩ 1 [] [] s.world).1 = true ∧
        s.log = [.signed (sampleSigning .native), .removed sampleKey] := by
      decide +kernel
    have only (signing : Signing) : .signed signing ∈ s.log ↔ signing = sampleSigning .native := by
      simp [log]
    obtain ⟨unforged, free⟩ := sample_honest only rfl
    exact ⟨s, Run.of_foldlM (fun _ _ _ => id) done, unforged, free, accepted, log⟩

end CrossChainVerifier
