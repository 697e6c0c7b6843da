import Perigee.CrossChainGovernance.Messages

/-!
# Who can bring a message

The sender of a message is a field of it, and the three protocols accept empty proof data.  So
nothing about a message needs an authorization.
-/

namespace CrossChainGovernance

open Soroban
open Sha256 (Digest)
open Wire

variable {Address Symbol Val : Type} {sha256 : Bytes → Digest}
  {message message' : CrossChainGovMessage} {proof proof' : BridgeProof}

/-! ## Hashed strings -/

theorem bridgeString_protocol
    (same : bridgeString sha256 message proof = bridgeString sha256 message' proof') :
    proof.protocol = proof'.protocol := by
  have first := congrArg List.head? same
  obtain ⟨protocol, _⟩ := proof
  obtain ⟨protocol', _⟩ := proof'
  cases protocol <;> cases protocol' <;> first | rfl | simp [bridgeString, ascii] at first

/-- The hashed string determines the source chain and the sequence number, whatever the protocol. -/
theorem bridgeString_inj
    (same : bridgeString sha256 message proof = bridgeString sha256 message' proof') :
    message.sourceChainId = message'.sourceChainId ∧ message.sequence = message'.sequence := by
  have sameProtocol := bridgeString_protocol same
  obtain ⟨protocol, _⟩ := proof
  obtain ⟨protocol', _⟩ := proof'
  obtain rfl : protocol = protocol' := sameProtocol
  cases protocol with
  | native | layerZero =>
    obtain ⟨source, body⟩ := be32_append_inj (List.append_cancel_left same)
    obtain ⟨-, body⟩ := be32_append_inj body
    exact ⟨source, (be64_append_inj body).1⟩
  | wormhole =>
    obtain ⟨source, body⟩ := be32_append_inj (List.append_cancel_left same)
    exact ⟨source, (be64_append_inj body).1⟩

/-! ## Forged messages -/

/-- A message in the name of a sender, with the next sequence number of its chain. -/
def forged (codec : Codec Address Symbol Val) (w : World Address Symbol Val) (chain : UInt32)
    (sender : Bytes) : CrossChainGovMessage where
  sourceChainId := chain
  destinationChainId := w.config.elim 0 CrossChainGovConfig.localChainId
  sequence := getInboundSequence w chain + 1
  sender := sender
  actionType := .proposalStateSync
  payload := codec.proposal 0 0 0 0 false
  timestamp := 0

/-- The strings of the accepted messages, and of the messages in the name of a trusted sender under
an enabled protocol. -/
def hashedStrings (codec : Codec Address Symbol Val) (s : Traced Address Symbol Val) : Set Bytes :=
  {string | ∃ accepted ∈ messages s.log, string = bridgeString codec.sha256 accepted.1 accepted.2} ∪
    {string | ∃ chain sender protocol, isTrustedSender s.world chain sender = true ∧
      isBridgeProtocolEnabled s.world protocol = true ∧
      string = bridgeString codec.sha256 (forged codec s.world chain sender) ⟨protocol, []⟩}

variable {codec : Codec Address Symbol Val} {w : World Address Symbol Val}
  {s : Traced Address Symbol Val} {chain : UInt32} {sender : Bytes} {protocol : BridgeProtocol}

theorem validateBridgeProof_nil (message : CrossChainGovMessage) (protocol : BridgeProtocol) :
    validateBridgeProof message ⟨protocol, []⟩ = .ok () := by
  cases protocol <;> rfl

theorem lt_next {sequence : UInt64} (left : sequence.toNat ≠ 2 ^ 64 - 1) :
    sequence < sequence + 1 := by
  have below := sequence.toNat_lt
  rw [UInt64.lt_iff_toNat_lt, UInt64.toNat_add, UInt64.toNat_one]
  omega

variable [DecidableEq Address] [DecidableEq Symbol]

def Host.unsigned (host : Host Address Symbol Val) : Host Address Symbol Val :=
  { host with auth := fun _ => false }

def Forgeable (codec : Codec Address Symbol Val) (host : Host Address Symbol Val)
    (w : World Address Symbol Val) : Prop :=
  ∃ call : Call Address Symbol Val, call.Inbound ∧ ∃ result, exec codec host w call = .ok result

/-- In a reachable state with an enabled protocol, a caller without any authorization can bring no
message exactly if the contract is paused or all chains with a trusted sender have used up their
sequence numbers. -/
theorem authentic_iff {actions : List (Action Address Symbol Val)}
    (run : Run (Step codec) {} actions s)
    (distinct : Set.InjOn codec.sha256 (hashedStrings codec s))
    (enabled : isBridgeProtocolEnabled s.world protocol = true)
    (host : Host Address Symbol Val) :
    ¬ Forgeable codec host.unsigned s.world ↔
      s.world.config.all CrossChainGovConfig.paused = true ∨
        ∀ chain sender, isTrustedSender s.world chain sender = true →
          (getInboundSequence s.world chain).toNat = 2 ^ 64 - 1 := by
  constructor
  · intro closed
    by_contra neither
    push Not at neither
    obtain ⟨running, chain, sender, trusted, left⟩ := neither
    cases stored : s.world.config with
    | none => exact running (by rw [stored]; rfl)
    | some =>
      rw [stored] at running
      have sequenced : Sequenced codec s := .run run
      refine closed ⟨.syncProposalState (forged codec s.world chain sender) ⟨protocol, []⟩ 0 0 0 0
        false, trivial, ?_⟩
      simp only [exec, syncProposalState, ok_iff]
      refine ⟨_, _, ⟨(), not_not.2 rfl, _, verifyAndRecordMessage_ok_iff.2 ⟨⟨⟨_, stored,
        Bool.eq_false_iff.2 running, by rw [forged, stored]; rfl⟩, rfl, enabled,
        validateBridgeProof_nil _ _, trusted, Bool.eq_false_iff.2 fun found => ?_, lt_next left⟩,
        rfl⟩, rfl⟩, rfl⟩
      -- A processed hash is that of an accepted message, whose sequence number is used up.
      obtain ⟨accepted, member, sameHash⟩ := sequenced.processed _ found
      have same := distinct (.inl ⟨accepted, member, rfl⟩)
        (.inr ⟨chain, sender, protocol, trusted, enabled, rfl⟩) sameHash
      obtain ⟨source, sequence⟩ := bridgeString_inj same
      have used := sequenced.bounded accepted member
      rw [source, sequence] at used
      exact UInt64.not_le.2 (lt_next left) used
  · rintro closed ⟨_, inbound, ⟨_, _⟩, executed⟩
    rcases (exec_effect executed).accepts with ⟨message, _, -, accepts⟩ | ⟨outbound, -⟩
    · obtain ⟨_, passes⟩ := accepts.passes
      rcases closed with paused | used
      · obtain ⟨_, stored, running, -⟩ := passes.here
        rw [stored, Option.all_some, running] at paused
        exact absurd paused Bool.false_ne_true
      · have last := used _ _ passes.trusted
        have newer := UInt64.lt_iff_toNat_lt.1 passes.newer
        have below := message.sequence.toNat_lt
        omega
    · exact outbound inbound

/-- Two of the protocols are disabled, and the contract is paused. -/
def pausedWithSender : List (Action UInt32 UInt32 UInt32) :=
  [signed 1 (.initializeGovernance 0 1 0), signed 2 (.setTrustedSender 2 [7] true),
    signed 3 (.setBridgeProtocol .layerZero false), signed 4 (.setBridgeProtocol .wormhole false),
    signed 5 (.setPaused true)]

theorem pausedWithSender_authentic :
    ∃ s, Run (Step fixedWidth) {} pausedWithSender s ∧ isTrustedSender s.world 2 [7] = true ∧
      isBridgeProtocolEnabled s.world .native = true ∧
      ¬ Forgeable fixedWidth (Host.unsigned ⟨6, fun _ => true, fun _ _ _ => some 0⟩) s.world := by
  obtain ⟨s, run, senders, native, layerZero, wormhole, noMessage, paused⟩ : ∃ s,
      Run (Step fixedWidth) {} pausedWithSender s ∧
        s.world.trustedSender.entries = (Store.set ∅ (2, [7]) true).entries ∧
        isBridgeProtocolEnabled s.world .native = true ∧
        isBridgeProtocolEnabled s.world .layerZero = false ∧
        isBridgeProtocolEnabled s.world .wormhole = false ∧
        messages s.log = [] ∧ s.world.config.all CrossChainGovConfig.paused = true :=
    exists_run (fun _ _ _ => id) (by decide +kernel)
  have trusted (chain : UInt32) (sender : Bytes) :
      isTrustedSender s.world chain sender = true ↔ (chain, sender) = (2, [7]) := by
    rw [isTrustedSender, AList.ext senders, Store.getD_set]
    split_ifs with same <;> simp [same, Store.getD]
  have one : (hashedStrings fixedWidth s).Subsingleton := by
    have only : hashedStrings fixedWidth s ⊆
        {bridgeString fixedWidth.sha256 (forged fixedWidth s.world 2 [7]) ⟨.native, []⟩} := by
      rintro _ (⟨_, member, -⟩ | ⟨chain, sender, protocol, known, enabled, rfl⟩)
      · rw [noMessage] at member
        exact absurd member List.not_mem_nil
      · obtain ⟨rfl, rfl⟩ := Prod.mk.inj ((trusted chain sender).1 known)
        cases protocol with
        | native => rfl
        | layerZero => exact absurd (layerZero.symm.trans enabled) Bool.false_ne_true
        | wormhole => exact absurd (wormhole.symm.trans enabled) Bool.false_ne_true
    exact Set.subsingleton_singleton.anti only
  exact ⟨s, run, (trusted 2 [7]).2 rfl, native,
    (authentic_iff run (one.injOn _) native _).2 (.inl paused)⟩

/-- A proposal state in the name of the trusted sender, with an empty Wormhole proof. -/
def forgedProposal : CrossChainGovMessage :=
  ⟨2, 1, 1, [7], .proposalStateSync, fixedWidth.proposal 5 3 1000 0 true, 0⟩

/-- It is accepted from a caller without any authorization. -/
theorem unsigned_proposal_accepted :
    ∃ s, Run (Step fixedWidth) {}
        [signed 1 (.initializeGovernance 0 1 0), signed 2 (.setTrustedSender 2 [7] true)] s ∧
      isTrustedSender s.world 2 [7] = true ∧ isBridgeProtocolEnabled s.world .wormhole = true ∧
      Forgeable fixedWidth (Host.unsigned ⟨3, fun _ => true, fun _ _ _ => some 0⟩) s.world := by
  obtain ⟨s, done, trusted, enabled, result, executed, -⟩ : ∃ s,
      [signed 1 (.initializeGovernance 0 1 0), signed 2 (.setTrustedSender 2 [7] true)].foldlM
        (perform fixedWidth) {} = .ok s ∧
      isTrustedSender s.world 2 [7] = true ∧ isBridgeProtocolEnabled s.world .wormhole = true ∧
      ∃ result, exec fixedWidth (Host.unsigned ⟨3, fun _ => true, fun _ _ _ => some 0⟩) s.world
        (.syncProposalState forgedProposal ⟨.wormhole, []⟩ 5 3 1000 0 true) = .ok result ∧
        messages result.1 = [(forgedProposal, ⟨.wormhole, []⟩)] := by
    decide +kernel
  have forgeable : Forgeable fixedWidth (Host.unsigned ⟨3, fun _ => true, fun _ _ _ => some 0⟩)
      s.world :=
    ⟨.syncProposalState forgedProposal ⟨.wormhole, []⟩ 5 3 1000 0 true, trivial, result, executed⟩
  exact ⟨s, Run.of_foldlM (fun _ _ _ => id) done, trusted, enabled, forgeable⟩

end CrossChainGovernance
