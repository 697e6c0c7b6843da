import Perigee.Soroban.Run
import Perigee.Soroban.Store

/-!
# The governance contract

Proposals are drafted, voted on, queued and executed, with voting powers that an admin assigns and
that their owners can delegate.  The file follows `admin.rs`, `voting.rs`, `proposal.rs` and
`contract.rs` of `contracts/governance/src`.  A call fails only by a trap.  The actions of a
proposal are only reported when it is executed, and the reports are left out.  That a user has voted
is recorded in temporary storage and never extended, so the host can drop the record at any time.
-/

namespace Governance

open Soroban

inductive ProposalState where
  | draft
  | voting
  | queued
  | executed
  | cancelled
  deriving DecidableEq

structure ProposalAction (Address : Type) where
  contractId : Address
  functionName : String
  args : List String
  deriving DecidableEq

structure Proposal (Address : Type) where
  id : ℕ
  proposer : Address
  title : String
  description : String
  actions : List (ProposalAction Address)
  state : ProposalState
  startTime : ℕ
  endTime : ℕ
  queuedTime : ℕ
  executedTime : ℕ
  forVotes : ℤ
  againstVotes : ℤ
  quorumRequired : ℤ
  deriving DecidableEq

structure GovernanceConfig (Address : Type) where
  admin : Address
  votingPeriod : ℕ
  timelockDelay : ℕ
  quorumPercentage : ℕ
  proposalCount : ℕ
  deriving DecidableEq

/-- The storage of the contract, by kind of key: `delegatedPower` has the delegate of a delegator,
`delegate` the total delegated to a delegate. -/
structure World (Address : Type) where
  config : Option (GovernanceConfig Address) := none
  proposals : Store ℕ (Proposal Address) := ∅
  votingPower : Store Address ℤ := ∅
  delegatedPower : Store Address Address := ∅
  delegate : Store Address ℤ := ∅
  hasVoted : Store (ℕ × Address) Bool := ∅

/-- What the host says about a call; `generated` is the address that `Address::generate` returns. -/
structure Host (Address : Type) where
  timestamp : ℕ
  invoker : Address
  auth : Address → Bool
  generated : Address

/-- The outcome of a call that has no errors of its own. -/
abbrev Result := Outcome Empty

variable {Address : Type} [DecidableEq Address] (host : Host Address)

section Configuration

omit [DecidableEq Address]

/-! ## Configuration -/

def readAdministrator (w : World Address) : Result Address := do
  let config ← unwrap w.config
  pure config.admin

def defaultConfig : GovernanceConfig Address where
  admin := host.generated
  votingPeriod := 7 * 24 * 60 * 60
  timelockDelay := 2 * 24 * 60 * 60
  quorumPercentage := 10
  proposalCount := 0

def readConfig (w : World Address) : GovernanceConfig Address :=
  w.config.getD (defaultConfig host)

def writeConfig (config : GovernanceConfig Address) (w : World Address) : World Address :=
  { w with config := some config }

def writeAdministrator (id : Address) (w : World Address) : World Address :=
  writeConfig { readConfig host w with admin := id } w

def requireAdministrator (w : World Address) : Result Unit := do
  let admin ← readAdministrator w
  ensure (host.auth admin = true)

end Configuration

/-! ## Voting power -/

def readVotingPower (w : World Address) (addr : Address) : ℤ := w.votingPower.getD addr 0

def writeVotingPower (addr : Address) (amount : ℤ) (w : World Address) : World Address :=
  { w with votingPower := w.votingPower.set addr amount }

def readDelegate (w : World Address) (delegator : Address) : Option Address :=
  w.delegatedPower.lookup delegator

def writeDelegate (delegator delegate : Address) (w : World Address) : World Address :=
  { w with delegatedPower := w.delegatedPower.set delegator delegate }

def getEffectiveVotingPower (w : World Address) (addr : Address) : Result ℤ :=
  i128 (readVotingPower w addr + w.delegate.getD addr 0)

def addDelegated (delegate : Address) (amount : ℤ) (w : World Address) :
    Result (World Address) := do
  let total ← i128 (w.delegate.getD delegate 0 + amount)
  pure { w with delegate := w.delegate.set delegate total }

/-- Take the delegator's power from the old delegate, if any. -/
def leaveDelegate (delegator : Address) (w : World Address) : Result (World Address) :=
  match readDelegate w delegator with
  | some oldDelegate => addDelegated oldDelegate (-readVotingPower w delegator) w
  | none => pure w

def delegateVotingPower (delegator delegate : Address) (w : World Address) :
    Result (World Address) := do
  let w ← leaveDelegate delegator w
  let w := writeDelegate delegator delegate w
  addDelegated delegate (readVotingPower w delegator) w

def hasVoted (w : World Address) (proposalId : ℕ) (voter : Address) : Bool :=
  (w.hasVoted.lookup (proposalId, voter)).isSome

def setVoted (proposalId : ℕ) (voter : Address) (w : World Address) : World Address :=
  { w with hasVoted := w.hasVoted.set (proposalId, voter) true }

/-- The host drops a vote record whose time to live is over. -/
def expireVote (proposalId : ℕ) (voter : Address) (w : World Address) : Result (World Address) := do
  ensure (hasVoted w proposalId voter = true)
  pure { w with hasVoted := w.hasVoted.remove (proposalId, voter) }

def calculateQuorum (config : GovernanceConfig Address) : Result ℤ := do
  let scaled ← i128 (1000 * config.quorumPercentage)
  divI128 scaled 100

/-! ## Proposals -/

section Proposals

omit [DecidableEq Address]

def readProposal (w : World Address) (id : ℕ) : Result (Proposal Address) :=
  unwrap (w.proposals.lookup id)

def writeProposal (p : Proposal Address) (w : World Address) : World Address :=
  { w with proposals := w.proposals.set p.id p }

def createProposal (proposer : Address) (title description : String)
    (actions : List (ProposalAction Address)) (w : World Address) : Result (ℕ × World Address) := do
  let config := readConfig host w
  let proposalId ← u32 (config.proposalCount + 1)
  let w := writeConfig { config with proposalCount := proposalId } w
  let p : Proposal Address :=
    { id := proposalId, proposer, title, description, actions, state := .draft, startTime := 0,
      endTime := 0, queuedTime := 0, executedTime := 0, forVotes := 0, againstVotes := 0,
      quorumRequired := 0 }
  pure (proposalId, writeProposal p w)

def startVoting (proposalId : ℕ) (w : World Address) : Result (World Address) := do
  let p ← readProposal w proposalId
  ensure (p.state = .draft)
  let config := readConfig host w
  let endTime ← u64 (host.timestamp + config.votingPeriod)
  let quorumRequired ← calculateQuorum config
  pure (writeProposal
    { p with state := .voting, startTime := host.timestamp, endTime, quorumRequired } w)

def Proposal.addVotes (p : Proposal Address) (support : Bool) (votingPower : ℤ) :
    Result (Proposal Address) :=
  if support then do
    let forVotes ← i128 (p.forVotes + votingPower)
    pure { p with forVotes }
  else do
    let againstVotes ← i128 (p.againstVotes + votingPower)
    pure { p with againstVotes }

end Proposals

def vote (proposalId : ℕ) (voter : Address) (support : Bool)
    (w : World Address) : Result (World Address) := do
  let p ← readProposal w proposalId
  ensure (p.state = .voting)
  ensure (hasVoted w proposalId voter = false)
  ensure (p.startTime ≤ host.timestamp ∧ host.timestamp ≤ p.endTime)
  let votingPower ← getEffectiveVotingPower w voter
  let p ← p.addVotes support votingPower
  pure (writeProposal p (setVoted proposalId voter w))

section Proposals

omit [DecidableEq Address]

def queueProposal (proposalId : ℕ) (w : World Address) : Result (World Address) := do
  let p ← readProposal w proposalId
  ensure (p.state = .voting)
  ensure (p.endTime < host.timestamp)
  ensure (p.againstVotes < p.forVotes)
  ensure (p.quorumRequired ≤ p.forVotes)
  pure (writeProposal { p with state := .queued, queuedTime := host.timestamp } w)

def executeProposal (proposalId : ℕ) (w : World Address) : Result (World Address) := do
  let p ← readProposal w proposalId
  ensure (p.state = .queued)
  let config := readConfig host w
  let ready ← u64 (p.queuedTime + config.timelockDelay)
  ensure (ready ≤ host.timestamp)
  pure (writeProposal { p with state := .executed, executedTime := host.timestamp } w)

def cancelProposal (proposalId : ℕ) (w : World Address) : Result (World Address) := do
  let p ← readProposal w proposalId
  ensure (p.state ≠ .executed)
  pure (writeProposal { p with state := .cancelled } w)

/-! ## The entry points -/

/-- Anyone may call this at any time: it writes a configuration that counts no proposals. -/
def initializeGovernance (admin : Address) (votingPeriod timelockDelay quorumPercentage : ℕ)
    (w : World Address) : World Address :=
  writeConfig { admin, votingPeriod, timelockDelay, quorumPercentage, proposalCount := 0 } w

end Proposals

/-- The entry points, and `expireVote`, which is a step of the host. -/
inductive Call (Address : Type) where
  | initializeGovernance (admin : Address) (votingPeriod timelockDelay quorumPercentage : ℕ)
  | setAdmin (newAdmin : Address)
  | setVotingPower (user : Address) (power : ℤ)
  | cancelProposalAdmin (proposalId : ℕ)
  | createProposal (title description : String) (actions : List (ProposalAction Address))
  | startVoting (proposalId : ℕ)
  | castVote (proposalId : ℕ) (support : Bool)
  | queueProposal (proposalId : ℕ)
  | executeProposal (proposalId : ℕ)
  | delegate (delegate : Address)
  | expireVote (proposalId : ℕ) (voter : Address)

def exec (w : World Address) :
    Call Address → Result (Option ℕ × World Address)
  | .initializeGovernance admin votingPeriod timelockDelay quorumPercentage =>
    pure (none, initializeGovernance admin votingPeriod timelockDelay quorumPercentage w)
  | .setAdmin newAdmin => do
    requireAdministrator host w
    pure (none, writeAdministrator host newAdmin w)
  | .setVotingPower user power => do
    requireAdministrator host w
    pure (none, writeVotingPower user power w)
  | .cancelProposalAdmin proposalId => do
    requireAdministrator host w
    let w ← cancelProposal proposalId w
    pure (none, w)
  | .createProposal title description actions => do
    let (proposalId, w) ← createProposal host host.invoker title description actions w
    pure (some proposalId, w)
  | .startVoting proposalId => do
    requireAdministrator host w
    let w ← startVoting host proposalId w
    pure (none, w)
  | .castVote proposalId support => do
    let w ← vote host proposalId host.invoker support w
    pure (none, w)
  | .queueProposal proposalId => do
    let w ← queueProposal host proposalId w
    pure (none, w)
  | .executeProposal proposalId => do
    let w ← executeProposal host proposalId w
    pure (none, w)
  | .delegate delegate => do
    let w ← delegateVotingPower host.invoker delegate w
    pure (none, w)
  | .expireVote proposalId voter => do
    let w ← expireVote proposalId voter w
    pure (none, w)

structure Action (Address : Type) where
  host : Host Address
  call : Call Address
  reported : Option ℕ := none

def Step (w : World Address) (action : Action Address) (w' : World Address) : Prop :=
  exec action.host w action.call = .ok (action.reported, w')

/-- Nothing is stored, except perhaps a configuration that counts no proposals. -/
def Initial (w : World Address) : Prop :=
  ∃ config, w = { config } ∧ ∀ c ∈ config, c.proposalCount = 0

end Governance
