import Perigee.CrossChainGovernance.Contract

/-!
# What a call of the governance contract does

`Passes` says what the verification of a message has found, and `Effect` what each call that returns
has found and done.
-/

namespace CrossChainGovernance

open Soroban
open Sha256 (Digest)
open Wire

variable {Address Symbol Val : Type} [DecidableEq Address] [DecidableEq Symbol]
  {codec : Codec Address Symbol Val} {host : Host Address Symbol Val}
  {w w' : World Address Symbol Val} {call : Call Address Symbol Val}
  {events : List (Event Address Symbol Val)} {message : CrossChainGovMessage} {proof : BridgeProof}

/-! ## Verification -/

structure Passes (codec : Codec Address Symbol Val) (w : World Address Symbol Val)
    (message : CrossChainGovMessage) (proof : BridgeProof) (action : GovernanceActionType) :
    Prop where
  here : ∃ config, w.config = some config ∧ config.paused = false ∧
    message.destinationChainId = config.localChainId
  action : message.actionType = action
  enabled : isBridgeProtocolEnabled w proof.protocol = true
  valid : validateBridgeProof message proof = .ok ()
  trusted : isTrustedSender w message.sourceChainId message.sender = true
  fresh : isMessageProcessed w (hashBridgeMessage codec.sha256 message proof) = false
  newer : getInboundSequence w message.sourceChainId < message.sequence

def recorded (codec : Codec Address Symbol Val) (message : CrossChainGovMessage)
    (proof : BridgeProof) (w : World Address Symbol Val) : World Address Symbol Val :=
  { w with
    processedMessage :=
      w.processedMessage.set (hashBridgeMessage codec.sha256 message proof) true
    inboundSequence := w.inboundSequence.set message.sourceChainId message.sequence }

omit [DecidableEq Address] [DecidableEq Symbol] in
theorem verifyAndRecordMessage_ok_iff {action : GovernanceActionType}
    {result : Digest × World Address Symbol Val} :
    verifyAndRecordMessage codec message proof action w = .ok result ↔
      Passes codec w message proof action ∧
        result =
          (hashBridgeMessage codec.sha256 message proof, recorded codec message proof w) := by
  simp only [verifyAndRecordMessage, getConfig, ok_iff, not_not, Bool.not_eq_true,
    Bool.not_eq_false, UInt64.not_le]
  constructor
  · rintro ⟨config, stored, _, running, _, destination, _, action, _, enabled, _, valid, _, trusted,
      _, fresh, _, newer, rfl⟩
    exact ⟨⟨⟨config, stored, running, destination⟩, action, enabled, valid, trusted, fresh, newer⟩,
      rfl⟩
  · rintro ⟨⟨⟨config, stored, running, destination⟩, action, enabled, valid, trusted, fresh, newer⟩,
      rfl⟩
    exact ⟨config, stored, (), running, (), destination, (), action, (), enabled, (), valid, (),
      trusted, (), fresh, (), newer, rfl⟩

/-! ## Effects -/

/-- Calls of the admin that set something or send a message to another chain. -/
def Call.Administers : Call Address Symbol Val → Prop
  | .initializeGovernance .. | .transferAdmin .. | .setExecutionDelay .. | .setPaused ..
  | .setBridgeProtocol .. | .setTrustedSender .. | .dispatchRemoteExecution ..
  | .broadcastProposalState .. | .broadcastVotingPower .. | .broadcastParameter ..
  | .broadcastStateRoot .. => True
  | _ => False

/-- Only the configuration, the lists of protocols and senders and the outgoing sequences may
differ. -/
def SettingsOnly (w w' : World Address Symbol Val) : Prop :=
  w' = { w with
    config := w'.config
    enabledProtocol := w'.enabledProtocol
    trustedSender := w'.trustedSender
    outboundSequence := w'.outboundSequence }

inductive Effect (codec : Codec Address Symbol Val) (host : Host Address Symbol Val)
    (w : World Address Symbol Val) :
    Call Address Symbol Val → List (Event Address Symbol Val) → World Address Symbol Val → Prop
  | settings {call : Call Address Symbol Val} {w' : World Address Symbol Val}
      (administers : call.Administers) (settings : SettingsOnly w w') :
      Effect codec host w call [] w'
  | queued {message : CrossChainGovMessage} {proof : BridgeProof} {target : Address}
      {function : Symbol} {args : List Val} {executionId : Digest}
      (payload : message.payload = codec.execution target function args executionId)
      (passes : Passes codec w message proof .remoteExecution)
      (absent : w.execution.lookup executionId = none) (delayed : 0 < w.delay) :
      Effect codec host w (.receiveAndExecute message proof target function args executionId)
        [.accepted message proof, .received executionId message host.timestamp w.delay]
        { recorded codec message proof w with
          execution := w.execution.set executionId
            ⟨executionId, message.sourceChainId, message.sender, target, function, args, .queued,
              host.timestamp, min (host.timestamp + w.delay) (2 ^ 64 - 1), 0⟩ }
  | executed {message : CrossChainGovMessage} {proof : BridgeProof} {target : Address}
      {function : Symbol} {args : List Val} {executionId : Digest}
      (payload : message.payload = codec.execution target function args executionId)
      (passes : Passes codec w message proof .remoteExecution)
      (absent : w.execution.lookup executionId = none) (immediate : w.delay = 0) :
      Effect codec host w (.receiveAndExecute message proof target function args executionId)
        [.accepted message proof, .received executionId message host.timestamp w.delay,
          .invoked executionId ⟨target, function, args, host.timestamp⟩]
        { recorded codec message proof w with
          execution := w.execution.set executionId
            ⟨executionId, message.sourceChainId, message.sender, target, function, args, .executed,
              host.timestamp, host.timestamp, host.timestamp⟩ }
  | executeQueued {executionId : Digest} {record : RemoteExecutionRecord Address Symbol Val}
      (stored : w.execution.lookup executionId = some record) (waiting : record.status = .queued)
      (ready : record.executeAfter ≤ host.timestamp) :
      Effect codec host w (.executeQueued executionId)
        [.invoked executionId ⟨record.target, record.function, record.args, host.timestamp⟩]
        { w with
          execution := w.execution.set executionId
            { record with status := .executed, executedAt := host.timestamp } }
  | cancelQueued {executionId : Digest} {record : RemoteExecutionRecord Address Symbol Val}
      (stored : w.execution.lookup executionId = some record) (waiting : record.status = .queued) :
      Effect codec host w (.cancelQueued executionId) [.cancelled executionId]
        { w with
          execution := w.execution.set executionId { record with status := .cancelled } }
  | proposal {message : CrossChainGovMessage} {proof : BridgeProof} {proposalId status : UInt32}
      {forVotes againstVotes : ℤ} {votingClosed : Bool}
      (passes : Passes codec w message proof .proposalStateSync) :
      Effect codec host w
        (.syncProposalState message proof proposalId status forVotes againstVotes votingClosed)
        [.accepted message proof]
        { recorded codec message proof w with
          syncedProposal := w.syncedProposal.set (message.sourceChainId, proposalId)
            ⟨proposalId, status, forVotes, againstVotes, votingClosed, host.timestamp⟩ }
  | votingPower {message : CrossChainGovMessage} {proof : BridgeProof} {voter : Address}
      {votingUnits : ℤ} {snapshotId : UInt64}
      (passes : Passes codec w message proof .votingPowerSync) :
      Effect codec host w (.syncVotingPower message proof voter votingUnits snapshotId)
        [.accepted message proof]
        { recorded codec message proof w with
          syncedVotingPower := w.syncedVotingPower.set (message.sourceChainId, voter, snapshotId)
            ⟨voter, votingUnits, snapshotId, host.timestamp⟩ }
  | parameter {message : CrossChainGovMessage} {proof : BridgeProof} {paramKey : Symbol}
      {paramValue : ℤ} (passes : Passes codec w message proof .parameterSync) :
      Effect codec host w (.syncParameter message proof paramKey paramValue)
        [.accepted message proof]
        { recorded codec message proof w with
          syncedParameter :=
            w.syncedParameter.set paramKey ⟨paramKey, paramValue, host.timestamp⟩ }
  | stateRoot {message : CrossChainGovMessage} {proof : BridgeProof} {chainId : UInt32}
      {blockHeight : UInt64} {root : Digest}
      (passes : Passes codec w message proof .stateRootSync) :
      Effect codec host w (.syncStateRoot message proof chainId blockHeight root)
        [.accepted message proof]
        { recorded codec message proof w with
          syncedStateRoot := w.syncedStateRoot.set (chainId, blockHeight)
            ⟨chainId, blockHeight, root, host.timestamp⟩
          latestStateRoot := if w.latestStateRoot.getD chainId 0 ≤ blockHeight
            then w.latestStateRoot.set chainId blockHeight else w.latestStateRoot }

theorem exec_effect (h : exec codec host w call = .ok (events, w')) :
    Effect codec host w call events w' := by
  cases call <;>
    simp only [exec, initializeGovernance, transferAdmin, setExecutionDelay, setPaused,
      setBridgeProtocol, setTrustedSender, executeQueued, cancelQueued, invokeContract,
      syncProposalState, syncVotingPower, syncParameter, syncStateRoot, ok_iff,
      verifyAndRecordMessage_ok_iff, not_not, not_lt] at h
  case receiveAndExecute executionId =>
    simp only [receiveAndExecute, ok_iff, not_not, verifyAndRecordMessage_ok_iff] at h
    obtain ⟨⟨_, _, _⟩, ⟨_, payload, _, ⟨passes, rfl⟩, config, stored, _, absent,
      branch⟩, rfl, rfl⟩ := h
    have delay : w.delay = config.minExecutionDelay := by
      rw [World.delay, show w.config = some config from okOr_ok_iff.1 stored]
      rfl
    have empty : w.execution.lookup executionId = none := by
      simpa [Store.has, recorded] using absent
    rw [← delay] at branch
    split_ifs at branch with delayed
    · obtain ⟨-, rfl, rfl⟩ := branch
      exact .queued payload passes empty delayed
    · simp only [invokeContract, ok_iff] at branch
      obtain ⟨_, ⟨_, -, rfl⟩, -, rfl, rfl⟩ := branch
      exact .executed payload passes empty (by omega)
  case initializeGovernance =>
    obtain ⟨_, ⟨_, -, _, -, rfl⟩, rfl, rfl⟩ := h
    exact .settings trivial rfl
  case transferAdmin | setExecutionDelay | setPaused | setBridgeProtocol | setTrustedSender =>
    obtain ⟨_, ⟨_, -, rfl⟩, rfl, rfl⟩ := h
    exact .settings trivial rfl
  case executeQueued =>
    obtain ⟨_, ⟨record, stored, _, waiting, _, ready, _, ⟨_, -, rfl⟩, rfl⟩, rfl, rfl⟩ := h
    exact .executeQueued stored waiting ready
  case cancelQueued =>
    obtain ⟨_, ⟨_, -, record, stored, _, waiting, rfl⟩, rfl, rfl⟩ := h
    exact .cancelQueued stored waiting
  case syncProposalState =>
    obtain ⟨_, ⟨_, -, _, ⟨passes, rfl⟩, rfl⟩, rfl, rfl⟩ := h
    exact .proposal passes
  case syncVotingPower =>
    obtain ⟨_, ⟨_, -, _, -, _, ⟨passes, rfl⟩, rfl⟩, rfl, rfl⟩ := h
    exact .votingPower passes
  case syncParameter =>
    obtain ⟨_, ⟨_, -, _, ⟨passes, rfl⟩, rfl⟩, rfl, rfl⟩ := h
    exact .parameter passes
  case syncStateRoot =>
    obtain ⟨_, ⟨_, -, _, ⟨passes, rfl⟩, rfl⟩, rfl, rfl⟩ := h
    exact .stateRoot passes
  case dispatchRemoteExecution | broadcastProposalState | broadcastVotingPower
      | broadcastParameter | broadcastStateRoot =>
    obtain ⟨_, sent, rfl, rfl⟩ := h
    change sendMessage codec host _ _ _ _ w = _ at sent
    simp only [sendMessage, ok_iff] at sent
    obtain ⟨_, -, _, -, _, -, rfl⟩ := sent
    exact .settings trivial rfl

theorem step_effect {s s' : Traced Address Symbol Val} {action : Action Address Symbol Val}
    (step : Step codec s action s') :
    ∃ events, s'.log = s.log ++ events ∧
      Effect codec action.host s.world action.call events s'.world := by
  simp only [Step, perform, ok_iff] at step
  obtain ⟨⟨events, _⟩, executed, rfl⟩ := step
  exact ⟨events, rfl, exec_effect executed⟩

end CrossChainGovernance
