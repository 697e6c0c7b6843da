import Perigee.Data.Sha256
import Perigee.Data.Wire
import Perigee.Soroban.Index
import Perigee.Soroban.Timed

/-!
# Cross-chain governance

Messages from trusted senders on other chains start calls of target contracts, at once or after a
delay, and bring proposals, voting power, parameters and state roots here.  The file follows
`contracts/cross_chain_governance/src/lib.rs`.  The hash function and the XDR encodings are
parameters (`Codec`).
-/

namespace CrossChainGovernance

open Soroban
open Sha256 (Digest)
open Wire

inductive Error where
  | alreadyInitialized
  | notInitialized
  | unauthorized
  | invalidChain
  | invalidSequence
  | messageAlreadyProcessed
  | unsupportedBridgeProtocol
  | invalidBridgeProof
  | untrustedRemoteSender
  | invalidActionType
  | invalidPayload
  | executionFailed
  | executionNotReady
  | executionAlreadyExecuted
  | executionNotFound
  | invalidTimelockDelay
  | invalidStateRoot
  | invalidProposalState
  | invalidVotingPower
  | paused
  | invalidParameters
  deriving DecidableEq

inductive BridgeProtocol where
  | native
  | layerZero
  | wormhole
  deriving DecidableEq

structure BridgeProof where
  protocol : BridgeProtocol
  proofData : Bytes
  deriving DecidableEq

inductive GovernanceActionType where
  | remoteExecution
  | proposalStateSync
  | votingPowerSync
  | parameterSync
  | stateRootSync
  deriving DecidableEq

structure CrossChainGovMessage where
  sourceChainId : UInt32
  destinationChainId : UInt32
  sequence : UInt64
  sender : Bytes
  actionType : GovernanceActionType
  payload : Bytes
  timestamp : UInt64
  deriving DecidableEq

inductive ExecutionStatus where
  | pending
  | queued
  | executed
  | failed
  | cancelled
  deriving DecidableEq

structure RemoteExecutionRecord (Address Symbol Val : Type) where
  executionId : Digest
  sourceChainId : UInt32
  sender : Bytes
  target : Address
  function : Symbol
  args : List Val
  status : ExecutionStatus
  queuedAt : ℕ
  executeAfter : ℕ
  executedAt : ℕ

structure ProposalStateSync where
  proposalId : UInt32
  status : UInt32
  forVotes : ℤ
  againstVotes : ℤ
  votingClosed : Bool
  syncedAt : ℕ
  deriving DecidableEq

structure VotingPowerSync (Address : Type) where
  voter : Address
  votingUnits : ℤ
  snapshotId : UInt64
  syncedAt : ℕ

structure ParameterSync (Symbol : Type) where
  paramKey : Symbol
  paramValue : ℤ
  syncedAt : ℕ

structure StateRootRecord where
  chainId : UInt32
  blockHeight : UInt64
  root : Digest
  syncedAt : ℕ
  deriving DecidableEq

structure CrossChainGovConfig (Address : Type) where
  admin : Address
  localChainId : UInt32
  minExecutionDelay : ℕ
  paused : Bool

structure World (Address Symbol Val : Type) where
  config : Option (CrossChainGovConfig Address) := none
  enabledProtocol : Store BridgeProtocol Bool := ∅
  trustedSender : Store (UInt32 × Bytes) Bool := ∅
  processedMessage : Store Digest Bool := ∅
  inboundSequence : Store UInt32 UInt64 := ∅
  outboundSequence : Store UInt32 UInt64 := ∅
  execution : Store Digest (RemoteExecutionRecord Address Symbol Val) := ∅
  syncedProposal : Store (UInt32 × UInt32) ProposalStateSync := ∅
  syncedVotingPower : Store (UInt32 × Address × UInt64) (VotingPowerSync Address) := ∅
  syncedParameter : Store Symbol (ParameterSync Symbol) := ∅
  syncedStateRoot : Store (UInt32 × UInt64) StateRootRecord := ∅
  latestStateRoot : Store UInt32 UInt64 := ∅

structure Host (Address Symbol Val : Type) where
  timestamp : ℕ
  /-- The addresses that authorized the call. -/
  auth : Address → Bool
  /-- What a contract returns; a contract that fails takes the call with it. -/
  invoke : Address → Symbol → List Val → Option Val

/-- SHA-256 and the XDR encodings of the tuples that the contract encodes. -/
structure Codec (Address Symbol Val : Type) where
  sha256 : Bytes → Digest
  address : Address → Bytes
  execution : Address → Symbol → List Val → Digest → Bytes
  proposal : UInt32 → UInt32 → ℤ → ℤ → Bool → Bytes
  votingPower : Address → ℤ → UInt64 → Bytes
  parameter : Symbol → ℤ → Bytes
  stateRoot : UInt32 → UInt64 → Digest → Bytes

structure Invocation (Address Symbol Val : Type) where
  target : Address
  function : Symbol
  args : List Val
  time : ℕ
  deriving DecidableEq

abbrev Result (α : Type) := Outcome Error α

/-! ## Bridge protocols -/

def validateBridgeProof (message : CrossChainGovMessage) (proof : BridgeProof) : Result Unit :=
  match proof.protocol with
  | .native => pure ()
  | .layerZero =>
    reject (8 ≤ proof.proofData.length ∧ (be32At proof.proofData 0 ≠ message.sourceChainId ∨
      be32At proof.proofData 4 ≠ message.destinationChainId)) .invalidBridgeProof
  | .wormhole => do
    reject (1 ≤ proof.proofData.length ∧
      (proof.proofData.getD 0 0 = 0 ∨ 19 < proof.proofData.getD 0 0)) .invalidBridgeProof
    reject (5 ≤ proof.proofData.length ∧ be32At proof.proofData 1 ≠ message.sourceChainId)
      .invalidBridgeProof

/-- The string that `hash_bridge_message` hashes. -/
def bridgeString (sha256 : Bytes → Digest) (message : CrossChainGovMessage) (proof : BridgeProof) :
    Bytes :=
  let payloadHash := (sha256 message.payload).1
  match proof.protocol with
  | .layerZero =>
    ascii "LZ_GOV_V1" ++ (be32 message.sourceChainId ++ (be32 message.destinationChainId ++
      (be64 message.sequence ++ (proof.proofData ++ payloadHash))))
  | .wormhole =>
    ascii "WH_GOV_V1" ++ (be32 message.sourceChainId ++ (be64 message.sequence ++
      (proof.proofData ++ payloadHash)))
  | .native =>
    ascii "NATIVE_GOV_V1" ++ (be32 message.sourceChainId ++ (be32 message.destinationChainId ++
      (be64 message.sequence ++ (be64 message.timestamp ++ payloadHash))))

def hashBridgeMessage (sha256 : Bytes → Digest) (message : CrossChainGovMessage)
    (proof : BridgeProof) : Digest :=
  sha256 (bridgeString sha256 message proof)

section Contract

variable {Address Symbol Val : Type} [DecidableEq Address] [DecidableEq Symbol]
  (codec : Codec Address Symbol Val) (host : Host Address Symbol Val)

/-! ## Administration -/

def requireAuth (addr : Address) : Result Unit := ensure (host.auth addr)

def invokeContract (target : Address) (function : Symbol) (args : List Val) :
    Result (Val × Invocation Address Symbol Val) := do
  let result ← unwrap (host.invoke target function args)
  pure (result, ⟨target, function, args, host.timestamp⟩)

def initializeGovernance (admin : Address) (localChainId : UInt32) (minExecutionDelay : ℕ)
    (w : World Address Symbol Val) : Result (World Address Symbol Val) := do
  reject (w.config.isSome = true) .alreadyInitialized
  requireAuth host admin
  pure { w with
    config := some ⟨admin, localChainId, minExecutionDelay, false⟩
    enabledProtocol :=
      ((w.enabledProtocol.set .native true).set .layerZero true).set .wormhole true }

variable (w : World Address Symbol Val)

def getConfig : Result (CrossChainGovConfig Address) :=
  okOr w.config .notInitialized

def adminConfig : Result (CrossChainGovConfig Address) := do
  let config ← getConfig w
  requireAuth host config.admin
  pure config

def transferAdmin (newAdmin : Address) (w : World Address Symbol Val) :
    Result (World Address Symbol Val) := do
  let config ← adminConfig host w
  pure { w with config := some { config with admin := newAdmin } }

def setExecutionDelay (newDelay : ℕ) (w : World Address Symbol Val) :
    Result (World Address Symbol Val) := do
  let config ← adminConfig host w
  pure { w with config := some { config with minExecutionDelay := newDelay } }

def setPaused (paused : Bool) (w : World Address Symbol Val) :
    Result (World Address Symbol Val) := do
  let config ← adminConfig host w
  pure { w with config := some { config with paused } }

def setBridgeProtocol (protocol : BridgeProtocol) (enabled : Bool) (w : World Address Symbol Val) :
    Result (World Address Symbol Val) := do
  let _ ← adminConfig host w
  pure { w with enabledProtocol := w.enabledProtocol.set protocol enabled }

def isBridgeProtocolEnabled (protocol : BridgeProtocol) : Bool :=
  w.enabledProtocol.getD protocol false

def setTrustedSender (sourceChainId : UInt32) (sender : Bytes) (trusted : Bool)
    (w : World Address Symbol Val) : Result (World Address Symbol Val) := do
  let _ ← adminConfig host w
  let key := (sourceChainId, sender)
  pure { w with
    trustedSender := if trusted then w.trustedSender.set key true else w.trustedSender.remove key }

def isTrustedSender (sourceChainId : UInt32) (sender : Bytes) : Bool :=
  w.trustedSender.getD (sourceChainId, sender) false

def getInboundSequence (sourceChainId : UInt32) : UInt64 :=
  w.inboundSequence.getD sourceChainId 0

def isMessageProcessed (messageHash : Digest) : Bool :=
  w.processedMessage.has messageHash

/-! ## Messages -/

def verifyAndRecordMessage (message : CrossChainGovMessage) (proof : BridgeProof)
    (expectedAction : GovernanceActionType) (w : World Address Symbol Val) :
    Result (Digest × World Address Symbol Val) := do
  let config ← getConfig w
  reject (config.paused = true) .paused
  reject (message.destinationChainId ≠ config.localChainId) .invalidChain
  reject (message.actionType ≠ expectedAction) .invalidActionType
  reject (isBridgeProtocolEnabled w proof.protocol = false) .unsupportedBridgeProtocol
  validateBridgeProof message proof
  reject (isTrustedSender w message.sourceChainId message.sender = false) .untrustedRemoteSender
  let messageHash := hashBridgeMessage codec.sha256 message proof
  reject (isMessageProcessed w messageHash = true) .messageAlreadyProcessed
  reject (message.sequence ≤ getInboundSequence w message.sourceChainId) .invalidSequence
  pure (messageHash, { w with
    processedMessage := w.processedMessage.set messageHash true
    inboundSequence := w.inboundSequence.set message.sourceChainId message.sequence })

/-- The status, and the call of the target if there was one. -/
def receiveAndExecute (message : CrossChainGovMessage) (proof : BridgeProof) (target : Address)
    (function : Symbol) (args : List Val) (executionId : Digest) (w : World Address Symbol Val) :
    Result (ExecutionStatus × List (Invocation Address Symbol Val) × World Address Symbol Val) := do
  reject (message.payload ≠ codec.execution target function args executionId) .invalidPayload
  let (_, w) ← verifyAndRecordMessage codec message proof .remoteExecution w
  let config ← getConfig w
  let now := host.timestamp
  reject (w.execution.has executionId = true) .executionAlreadyExecuted
  if 0 < config.minExecutionDelay then
    let executeAfter := min (now + config.minExecutionDelay) (2 ^ 64 - 1)
    let record : RemoteExecutionRecord Address Symbol Val :=
      ⟨executionId, message.sourceChainId, message.sender, target, function, args, .queued, now,
        executeAfter, 0⟩
    pure (.queued, [], { w with execution := w.execution.set executionId record })
  else do
    let (_, invocation) ← invokeContract host target function args
    let record : RemoteExecutionRecord Address Symbol Val :=
      ⟨executionId, message.sourceChainId, message.sender, target, function, args, .executed, now,
        now, now⟩
    pure (.executed, [invocation], { w with execution := w.execution.set executionId record })

/-- The value returned, and the call of the target. -/
def executeQueued (executionId : Digest) (w : World Address Symbol Val) :
    Result (Val × List (Invocation Address Symbol Val) × World Address Symbol Val) := do
  let record ← okOr (w.execution.lookup executionId) .executionNotFound
  reject (record.status ≠ .queued) .executionAlreadyExecuted
  let now := host.timestamp
  reject (now < record.executeAfter) .executionNotReady
  let (result, invocation) ← invokeContract host record.target record.function record.args
  pure (result, [invocation], { w with
    execution := w.execution.set executionId
      { record with status := .executed, executedAt := now } })

def cancelQueued (executionId : Digest) (w : World Address Symbol Val) :
    Result (World Address Symbol Val) := do
  let _ ← adminConfig host w
  let record ← okOr (w.execution.lookup executionId) .executionNotFound
  reject (record.status ≠ .queued) .executionAlreadyExecuted
  pure { w with
    execution := w.execution.set executionId { record with status := .cancelled } }

def syncProposalState (message : CrossChainGovMessage) (proof : BridgeProof)
    (proposalId status : UInt32) (forVotes againstVotes : ℤ) (votingClosed : Bool)
    (w : World Address Symbol Val) : Result (World Address Symbol Val) := do
  reject (message.payload ≠ codec.proposal proposalId status forVotes againstVotes votingClosed)
    .invalidPayload
  let (_, w) ← verifyAndRecordMessage codec message proof .proposalStateSync w
  pure { w with
    syncedProposal := w.syncedProposal.set (message.sourceChainId, proposalId)
      ⟨proposalId, status, forVotes, againstVotes, votingClosed, host.timestamp⟩ }

def syncVotingPower (message : CrossChainGovMessage) (proof : BridgeProof) (voter : Address)
    (votingUnits : ℤ) (snapshotId : UInt64) (w : World Address Symbol Val) :
    Result (World Address Symbol Val) := do
  reject (votingUnits < 0) .invalidVotingPower
  reject (message.payload ≠ codec.votingPower voter votingUnits snapshotId) .invalidPayload
  let (_, w) ← verifyAndRecordMessage codec message proof .votingPowerSync w
  pure { w with
    syncedVotingPower := w.syncedVotingPower.set (message.sourceChainId, voter, snapshotId)
      ⟨voter, votingUnits, snapshotId, host.timestamp⟩ }

def syncParameter (message : CrossChainGovMessage) (proof : BridgeProof) (paramKey : Symbol)
    (paramValue : ℤ) (w : World Address Symbol Val) : Result (World Address Symbol Val) := do
  reject (message.payload ≠ codec.parameter paramKey paramValue) .invalidPayload
  let (_, w) ← verifyAndRecordMessage codec message proof .parameterSync w
  pure { w with
    syncedParameter := w.syncedParameter.set paramKey ⟨paramKey, paramValue, host.timestamp⟩ }

/-- The keys are built from the chain that the payload names. -/
def syncStateRoot (message : CrossChainGovMessage) (proof : BridgeProof) (chainId : UInt32)
    (blockHeight : UInt64) (root : Digest) (w : World Address Symbol Val) :
    Result (World Address Symbol Val) := do
  reject (message.payload ≠ codec.stateRoot chainId blockHeight root) .invalidPayload
  let (_, w) ← verifyAndRecordMessage codec message proof .stateRootSync w
  let currentLatest := w.latestStateRoot.getD chainId 0
  pure { w with
    syncedStateRoot := w.syncedStateRoot.set (chainId, blockHeight)
      ⟨chainId, blockHeight, root, host.timestamp⟩
    latestStateRoot := if currentLatest ≤ blockHeight
      then w.latestStateRoot.set chainId blockHeight else w.latestStateRoot }

def getSyncedStateRoot (chainId : UInt32) (blockHeight : UInt64) : Option StateRootRecord :=
  w.syncedStateRoot.lookup (chainId, blockHeight)

def getLatestStateRoot (chainId : UInt32) : Option StateRootRecord := do
  let blockHeight ← w.latestStateRoot.lookup chainId
  getSyncedStateRoot w chainId blockHeight

/-! ## Messages to other chains -/

variable (destinationChainId : UInt32)

/-- What `dispatch_remote_execution` and the `broadcast_` functions have in common. -/
def sendMessage (protocol : BridgeProtocol)
    (actionType : GovernanceActionType) (payload : Bytes) (w : World Address Symbol Val) :
    Result (CrossChainGovMessage × World Address Symbol Val) := do
  let config ← adminConfig host w
  reject (isBridgeProtocolEnabled w protocol = false) .unsupportedBridgeProtocol
  let seq ← u64 ((w.outboundSequence.getD destinationChainId 0).toNat + 1)
  let sequence := UInt64.ofNat seq
  let message : CrossChainGovMessage :=
    ⟨config.localChainId, destinationChainId, sequence, codec.address config.admin, actionType,
      payload, UInt64.ofNat host.timestamp⟩
  pure (message, { w with outboundSequence := w.outboundSequence.set destinationChainId sequence })

def dispatchRemoteExecution (protocol : BridgeProtocol)
    (targetBytes argsPayload : Bytes) (executionId : Digest) (w : World Address Symbol Val) :
    Result (CrossChainGovMessage × World Address Symbol Val) :=
  sendMessage codec host destinationChainId protocol .remoteExecution
    (targetBytes ++ argsPayload ++ executionId.1) w

def broadcastProposalState (protocol : BridgeProtocol)
    (proposalId status : UInt32) (forVotes againstVotes : ℤ) (votingClosed : Bool)
    (w : World Address Symbol Val) : Result (CrossChainGovMessage × World Address Symbol Val) :=
  sendMessage codec host destinationChainId protocol .proposalStateSync
    (codec.proposal proposalId status forVotes againstVotes votingClosed) w

def broadcastVotingPower (protocol : BridgeProtocol)
    (voter : Address) (votingUnits : ℤ) (snapshotId : UInt64) (w : World Address Symbol Val) :
    Result (CrossChainGovMessage × World Address Symbol Val) :=
  sendMessage codec host destinationChainId protocol .votingPowerSync
    (codec.votingPower voter votingUnits snapshotId) w

def broadcastParameter (protocol : BridgeProtocol)
    (paramKey : Symbol) (paramValue : ℤ) (w : World Address Symbol Val) :
    Result (CrossChainGovMessage × World Address Symbol Val) :=
  sendMessage codec host destinationChainId protocol .parameterSync
    (codec.parameter paramKey paramValue) w

def broadcastStateRoot (protocol : BridgeProtocol)
    (chainId : UInt32) (blockHeight : UInt64) (root : Digest) (w : World Address Symbol Val) :
    Result (CrossChainGovMessage × World Address Symbol Val) :=
  sendMessage codec host destinationChainId protocol .stateRootSync
    (codec.stateRoot chainId blockHeight root) w

end Contract

/-! ## Runs -/

inductive Call (Address Symbol Val : Type) where
  | initializeGovernance (admin : Address) (localChainId : UInt32) (minExecutionDelay : ℕ)
  | transferAdmin (newAdmin : Address)
  | setExecutionDelay (newDelay : ℕ)
  | setPaused (paused : Bool)
  | setBridgeProtocol (protocol : BridgeProtocol) (enabled : Bool)
  | setTrustedSender (sourceChainId : UInt32) (sender : Bytes) (trusted : Bool)
  | receiveAndExecute (message : CrossChainGovMessage) (proof : BridgeProof) (target : Address)
      (function : Symbol) (args : List Val) (executionId : Digest)
  | executeQueued (executionId : Digest)
  | cancelQueued (executionId : Digest)
  | syncProposalState (message : CrossChainGovMessage) (proof : BridgeProof)
      (proposalId status : UInt32) (forVotes againstVotes : ℤ) (votingClosed : Bool)
  | syncVotingPower (message : CrossChainGovMessage) (proof : BridgeProof) (voter : Address)
      (votingUnits : ℤ) (snapshotId : UInt64)
  | syncParameter (message : CrossChainGovMessage) (proof : BridgeProof) (paramKey : Symbol)
      (paramValue : ℤ)
  | syncStateRoot (message : CrossChainGovMessage) (proof : BridgeProof) (chainId : UInt32)
      (blockHeight : UInt64) (root : Digest)
  | dispatchRemoteExecution (destinationChainId : UInt32) (protocol : BridgeProtocol)
      (targetBytes argsPayload : Bytes) (executionId : Digest)
  | broadcastProposalState (destinationChainId : UInt32) (protocol : BridgeProtocol)
      (proposalId status : UInt32) (forVotes againstVotes : ℤ) (votingClosed : Bool)
  | broadcastVotingPower (destinationChainId : UInt32) (protocol : BridgeProtocol)
      (voter : Address) (votingUnits : ℤ) (snapshotId : UInt64)
  | broadcastParameter (destinationChainId : UInt32) (protocol : BridgeProtocol)
      (paramKey : Symbol) (paramValue : ℤ)
  | broadcastStateRoot (destinationChainId : UInt32) (protocol : BridgeProtocol)
      (chainId : UInt32) (blockHeight : UInt64) (root : Digest)

/-- What a call leaves behind besides the storage. -/
inductive Event (Address Symbol Val : Type) where
  /-- A message was accepted. -/
  | accepted (message : CrossChainGovMessage) (proof : BridgeProof)
  /-- A message that starts an execution was accepted, at a time and under a delay. -/
  | received (executionId : Digest) (message : CrossChainGovMessage) (time delay : ℕ)
  /-- The target of an execution was called. -/
  | invoked (executionId : Digest) (invocation : Invocation Address Symbol Val)
  /-- An execution was cancelled. -/
  | cancelled (executionId : Digest)
  deriving DecidableEq

structure Traced (Address Symbol Val : Type) where
  world : World Address Symbol Val := {}
  log : List (Event Address Symbol Val) := []

structure Action (Address Symbol Val : Type) where
  host : Host Address Symbol Val
  call : Call Address Symbol Val

section Runs

variable {Address Symbol Val : Type} [DecidableEq Address] [DecidableEq Symbol]
  (codec : Codec Address Symbol Val)

def Action.time (action : Action Address Symbol Val) : ℕ := action.host.timestamp

def World.delay (w : World Address Symbol Val) : ℕ :=
  w.config.elim 0 CrossChainGovConfig.minExecutionDelay

def exec (host : Host Address Symbol Val) (w : World Address Symbol Val) :
    Call Address Symbol Val →
      Result (List (Event Address Symbol Val) × World Address Symbol Val)
  | .initializeGovernance admin localChainId minExecutionDelay => do
    pure ([], ← initializeGovernance host admin localChainId minExecutionDelay w)
  | .transferAdmin newAdmin => do pure ([], ← transferAdmin host newAdmin w)
  | .setExecutionDelay newDelay => do pure ([], ← setExecutionDelay host newDelay w)
  | .setPaused paused => do pure ([], ← setPaused host paused w)
  | .setBridgeProtocol protocol enabled => do
    pure ([], ← setBridgeProtocol host protocol enabled w)
  | .setTrustedSender sourceChainId sender trusted => do
    pure ([], ← setTrustedSender host sourceChainId sender trusted w)
  | .receiveAndExecute message proof target function args executionId => do
    let (_, invocations, w') ←
      receiveAndExecute codec host message proof target function args executionId w
    pure ([.accepted message proof, .received executionId message host.timestamp w.delay] ++
      invocations.map (.invoked executionId), w')
  | .executeQueued executionId => do
    let (_, invocations, w') ← executeQueued host executionId w
    pure (invocations.map (.invoked executionId), w')
  | .cancelQueued executionId => do
    pure ([.cancelled executionId], ← cancelQueued host executionId w)
  | .syncProposalState message proof proposalId status forVotes againstVotes votingClosed => do
    pure ([.accepted message proof], ← syncProposalState codec host message proof proposalId status
      forVotes againstVotes votingClosed w)
  | .syncVotingPower message proof voter votingUnits snapshotId => do
    pure ([.accepted message proof],
      ← syncVotingPower codec host message proof voter votingUnits snapshotId w)
  | .syncParameter message proof paramKey paramValue => do
    pure ([.accepted message proof], ← syncParameter codec host message proof paramKey paramValue w)
  | .syncStateRoot message proof chainId blockHeight root => do
    pure ([.accepted message proof],
      ← syncStateRoot codec host message proof chainId blockHeight root w)
  | .dispatchRemoteExecution destinationChainId protocol targetBytes argsPayload executionId => do
    let (_, w') ← dispatchRemoteExecution codec host destinationChainId protocol targetBytes
      argsPayload executionId w
    pure ([], w')
  | .broadcastProposalState destinationChainId protocol proposalId status forVotes againstVotes
      votingClosed => do
    let (_, w') ← broadcastProposalState codec host destinationChainId protocol proposalId status
      forVotes againstVotes votingClosed w
    pure ([], w')
  | .broadcastVotingPower destinationChainId protocol voter votingUnits snapshotId => do
    let (_, w') ← broadcastVotingPower codec host destinationChainId protocol voter votingUnits
      snapshotId w
    pure ([], w')
  | .broadcastParameter destinationChainId protocol paramKey paramValue => do
    let (_, w') ← broadcastParameter codec host destinationChainId protocol paramKey paramValue w
    pure ([], w')
  | .broadcastStateRoot destinationChainId protocol chainId blockHeight root => do
    let (_, w') ← broadcastStateRoot codec host destinationChainId protocol chainId blockHeight
      root w
    pure ([], w')

def perform (s : Traced Address Symbol Val) (action : Action Address Symbol Val) :
    Result (Traced Address Symbol Val) := do
  let (events, world) ← exec codec action.host s.world action.call
  pure ⟨world, s.log ++ events⟩

def Step (s : Traced Address Symbol Val) (action : Action Address Symbol Val)
    (s' : Traced Address Symbol Val) : Prop :=
  perform codec s action = .ok s'

end Runs

/-! ## A concrete instance -/

/-- SHA-256, with all parts of a payload in big-endian bytes. -/
def fixedWidth : Codec UInt32 UInt32 UInt32 where
  sha256 := Sha256.digest
  address := be32
  execution target function args executionId :=
    be32 target ++ be32 function ++ args.flatMap be32 ++ executionId.1
  proposal proposalId status forVotes againstVotes votingClosed :=
    be32 proposalId ++ be32 status ++ be128 forVotes ++ be128 againstVotes ++
      [if votingClosed then 1 else 0]
  votingPower voter votingUnits snapshotId := be32 voter ++ be128 votingUnits ++ be64 snapshotId
  parameter paramKey paramValue := be32 paramKey ++ be128 paramValue
  stateRoot chainId blockHeight root := be32 chainId ++ be64 blockHeight ++ root.1

def signed (timestamp : ℕ) (call : Call UInt32 UInt32 UInt32) : Action UInt32 UInt32 UInt32 :=
  ⟨⟨timestamp, fun _ => true, fun _ _ _ => some 0⟩, call⟩

end CrossChainGovernance
