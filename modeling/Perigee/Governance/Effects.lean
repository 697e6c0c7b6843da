import Perigee.Governance.Contract

/-!
# What the calls of the governance contract do

`Effect` says once, for every entry point, when a call returns and what it writes; `exec_effect`
derives it from the code.
-/

namespace Governance

open Soroban

variable {Address : Type} [DecidableEq Address] {host : Host Address} {w w' : World Address}

def Authorized (host : Host Address) (w : World Address) : Prop :=
  ∃ config, w.config = some config ∧ host.auth config.admin = true

def draftProposal (proposalId : ℕ) (proposer : Address) (title description : String)
    (actions : List (ProposalAction Address)) : Proposal Address where
  id := proposalId
  proposer := proposer
  title := title
  description := description
  actions := actions
  state := .draft
  startTime := 0
  endTime := 0
  queuedTime := 0
  executedTime := 0
  forVotes := 0
  againstVotes := 0
  quorumRequired := 0

/-- The proposal after a vote of the given power. -/
def Proposal.counted (p : Proposal Address) (support : Bool) (power : ℤ) : Proposal Address :=
  if support then { p with forVotes := p.forVotes + power }
  else { p with againstVotes := p.againstVotes + power }

section Counted

omit [DecidableEq Address]

variable (p : Proposal Address) (support : Bool) (power : ℤ)

@[simp] theorem Proposal.counted_id : (p.counted support power).id = p.id := by
  unfold counted
  split <;> rfl

@[simp] theorem Proposal.counted_state : (p.counted support power).state = p.state := by
  unfold counted
  split <;> rfl

theorem Proposal.counted_votes :
    (p.counted support power).forVotes + (p.counted support power).againstVotes =
      p.forVotes + p.againstVotes + power := by
  unfold counted
  split
  · exact add_right_comm _ _ _
  · exact (add_assoc _ _ _).symm

end Counted

variable {delegate delegator : Address}

/-- The totals after `power` moved from the old delegate, if any, to the new one. -/
def MovesPower (totals totals' : Store Address ℤ) (old : Option Address) (new : Address)
    (power : ℤ) : Prop :=
  ∀ d, totals'.getD d 0 =
    totals.getD d 0 - (if old = some d then power else 0) + if d = new then power else 0

/-- When a call returns, what it returns, and what it writes. -/
inductive Effect (host : Host Address) (w : World Address) :
    Call Address → Option ℕ → World Address → Prop
  | initializeGovernance {admin : Address} {votingPeriod timelockDelay quorumPercentage : ℕ} :
      Effect host w (.initializeGovernance admin votingPeriod timelockDelay quorumPercentage) none
        (initializeGovernance admin votingPeriod timelockDelay quorumPercentage w)
  | setAdmin {newAdmin : Address} (authorized : Authorized host w) :
      Effect host w (.setAdmin newAdmin) none (writeAdministrator host newAdmin w)
  | setVotingPower {user : Address} {power : ℤ} (authorized : Authorized host w) :
      Effect host w (.setVotingPower user power) none (writeVotingPower user power w)
  | cancelProposalAdmin {proposalId : ℕ} {p : Proposal Address} (authorized : Authorized host w)
      (found : w.proposals.lookup proposalId = some p) (live : p.state ≠ .executed) :
      Effect host w (.cancelProposalAdmin proposalId) none
        (writeProposal { p with state := .cancelled } w)
  | createProposal {title description : String} {actions : List (ProposalAction Address)}
      (fits : (readConfig host w).proposalCount + 1 < 2 ^ 32) :
      Effect host w (.createProposal title description actions)
        (some ((readConfig host w).proposalCount + 1))
        (writeProposal
          (draftProposal ((readConfig host w).proposalCount + 1) host.invoker title description
            actions)
          (writeConfig
            { readConfig host w with proposalCount := (readConfig host w).proposalCount + 1 } w))
  | startVoting {proposalId : ℕ} {p : Proposal Address} {quorumRequired : ℤ}
      (authorized : Authorized host w) (found : w.proposals.lookup proposalId = some p)
      (draft : p.state = .draft)
      (quorum : calculateQuorum (readConfig host w) = .ok quorumRequired) :
      Effect host w (.startVoting proposalId) none
        (writeProposal
          { p with
            state := .voting
            startTime := host.timestamp
            endTime := host.timestamp + (readConfig host w).votingPeriod
            quorumRequired } w)
  | castVote {proposalId : ℕ} {support : Bool} {p : Proposal Address}
      (found : w.proposals.lookup proposalId = some p) (voting : p.state = .voting)
      (fresh : hasVoted w proposalId host.invoker = false)
      (window : p.startTime ≤ host.timestamp ∧ host.timestamp ≤ p.endTime) :
      Effect host w (.castVote proposalId support) none
        (writeProposal
          (p.counted support
            (readVotingPower w host.invoker + w.delegate.getD host.invoker 0))
          (setVoted proposalId host.invoker w))
  | queueProposal {proposalId : ℕ} {p : Proposal Address}
      (found : w.proposals.lookup proposalId = some p) (voting : p.state = .voting)
      (ended : p.endTime < host.timestamp) (majority : p.againstVotes < p.forVotes)
      (quorum : p.quorumRequired ≤ p.forVotes) :
      Effect host w (.queueProposal proposalId) none
        (writeProposal { p with state := .queued, queuedTime := host.timestamp } w)
  | executeProposal {proposalId : ℕ} {p : Proposal Address}
      (found : w.proposals.lookup proposalId = some p) (queued : p.state = .queued)
      (ready : p.queuedTime + (readConfig host w).timelockDelay ≤ host.timestamp) :
      Effect host w (.executeProposal proposalId) none
        (writeProposal { p with state := .executed, executedTime := host.timestamp } w)
  | delegate {delegate : Address} {totals : Store Address ℤ}
      (moves : MovesPower w.delegate totals (readDelegate w host.invoker) delegate
        (readVotingPower w host.invoker)) :
      Effect host w (.delegate delegate) none
        { w with
          delegatedPower := w.delegatedPower.set host.invoker delegate
          delegate := totals }
  | expireVote {proposalId : ℕ} {voter : Address} (voted : hasVoted w proposalId voter = true) :
      Effect host w (.expireVote proposalId voter) none
        { w with hasVoted := w.hasVoted.remove (proposalId, voter) }

omit [DecidableEq Address] in
theorem requireAdministrator_ok {u : Unit} (h : requireAdministrator host w = .ok u) :
    Authorized host w := by
  unfold requireAdministrator readAdministrator at h
  simp only [ok_iff] at h
  obtain ⟨_, ⟨config, stored, rfl⟩, auth⟩ := h
  exact ⟨config, stored, auth⟩

theorem addDelegated_ok {amount : ℤ} (h : addDelegated delegate amount w = .ok w') :
    ∃ totals, w' = { w with delegate := totals } ∧
      ∀ d, totals.getD d 0 = w.delegate.getD d 0 + if d = delegate then amount else 0 := by
  unfold addDelegated at h
  simp only [ok_iff] at h
  obtain ⟨_, ⟨_, rfl⟩, rfl⟩ := h
  refine ⟨_, rfl, fun d => ?_⟩
  rw [Store.getD_set]
  split_ifs with same
  · rw [same]
  · exact (add_zero _).symm

theorem leaveDelegate_ok (h : leaveDelegate delegator w = .ok w') :
    ∃ totals, w' = { w with delegate := totals } ∧
      ∀ d, totals.getD d 0 = w.delegate.getD d 0 -
        if readDelegate w delegator = some d then readVotingPower w delegator else 0 := by
  unfold leaveDelegate at h
  cases old : readDelegate w delegator with
  | none =>
    rw [old] at h
    obtain rfl := pure_ok_iff.1 h
    exact ⟨_, rfl, fun d => by simp⟩
  | some oldDelegate =>
    rw [old] at h
    obtain ⟨totals, rfl, added⟩ := addDelegated_ok h
    refine ⟨totals, rfl, fun d => ?_⟩
    rw [added]
    by_cases same : d = oldDelegate
    · rw [if_pos same, if_pos (congrArg some same.symm), sub_eq_add_neg]
    · rw [if_neg same, if_neg fun h => same (Option.some.inj h).symm, add_zero, sub_zero]

theorem delegateVotingPower_ok (h : delegateVotingPower delegator delegate w = .ok w') :
    ∃ totals, w' = { w with
        delegatedPower := w.delegatedPower.set delegator delegate
        delegate := totals } ∧
      MovesPower w.delegate totals (readDelegate w delegator) delegate
        (readVotingPower w delegator) := by
  obtain ⟨_, left, joined⟩ := bind_ok_iff.1 h
  obtain ⟨_, rfl, removed⟩ := leaveDelegate_ok left
  obtain ⟨totals, rfl, added⟩ := addDelegated_ok joined
  refine ⟨totals, rfl, fun d => (added d).trans ?_⟩
  rw [← removed]
  rfl

omit [DecidableEq Address] in
theorem addVotes_ok {p p' : Proposal Address} {support : Bool} {power : ℤ}
    (h : p.addVotes support power = .ok p') : p' = p.counted support power := by
  unfold Proposal.addVotes at h
  cases support with
  | true =>
    simp only [if_true, ok_iff] at h
    obtain ⟨_, ⟨-, rfl⟩, rfl⟩ := h
    rfl
  | false =>
    simp only [Bool.false_eq_true, if_false, ok_iff] at h
    obtain ⟨_, ⟨-, rfl⟩, rfl⟩ := h
    rfl

theorem exec_effect {call : Call Address} {reported : Option ℕ}
    (h : exec host w call = .ok (reported, w')) : Effect host w call reported w' := by
  cases call <;>
    simp only [exec, cancelProposal, createProposal, startVoting, queueProposal, executeProposal,
      readProposal, expireVote, ok_iff] at h
  case initializeGovernance =>
    obtain ⟨rfl, rfl⟩ := h
    exact .initializeGovernance
  case setAdmin =>
    obtain ⟨_, authorized, rfl, rfl⟩ := h
    exact .setAdmin (requireAdministrator_ok authorized)
  case setVotingPower =>
    obtain ⟨_, authorized, rfl, rfl⟩ := h
    exact .setVotingPower (requireAdministrator_ok authorized)
  case cancelProposalAdmin =>
    obtain ⟨_, authorized, _, ⟨p, found, _, live, rfl⟩, rfl, rfl⟩ := h
    exact .cancelProposalAdmin (requireAdministrator_ok authorized) found live
  case createProposal =>
    obtain ⟨_, ⟨_, ⟨fits, rfl⟩, rfl⟩, rfl, rfl⟩ := h
    exact .createProposal fits
  case startVoting =>
    obtain ⟨_, authorized, _, ⟨p, found, _, draft, _, ⟨_, rfl⟩, _, quorum, rfl⟩, rfl, rfl⟩ := h
    exact .startVoting (requireAdministrator_ok authorized) found draft quorum
  case castVote =>
    obtain ⟨_, voted, rfl, rfl⟩ := h
    simp only [vote, readProposal, getEffectiveVotingPower, ok_iff] at voted
    obtain ⟨p, found, -, voting, -, fresh, -, window, _, ⟨-, rfl⟩, _, counted, rfl⟩ := voted
    rw [addVotes_ok counted]
    exact .castVote found voting fresh window
  case queueProposal =>
    obtain ⟨_, ⟨p, found, _, voting, _, ended, _, majority, _, quorum, rfl⟩, rfl, rfl⟩ := h
    exact .queueProposal found voting ended majority quorum
  case executeProposal =>
    obtain ⟨_, ⟨p, found, _, queued, _, ⟨_, rfl⟩, _, ready, rfl⟩, rfl, rfl⟩ := h
    exact .executeProposal found queued ready
  case delegate =>
    obtain ⟨_, delegated, rfl, rfl⟩ := h
    obtain ⟨_, rfl, moves⟩ := delegateVotingPower_ok delegated
    exact .delegate moves
  case expireVote =>
    obtain ⟨_, ⟨_, voted, rfl⟩, rfl, rfl⟩ := h
    exact .expireVote voted

/-! ## The register of proposals -/

section Register

omit [DecidableEq Address]

def proposalCount (w : World Address) : ℕ := w.config.elim 0 GovernanceConfig.proposalCount

theorem readConfig_count (host : Host Address) (w : World Address) :
    (readConfig host w).proposalCount = proposalCount w := by
  unfold readConfig proposalCount
  cases w.config <;> rfl

/-- Proposals are stored under their ids, which are the numbers from one up to the count. -/
structure Registered (w : World Address) : Prop where
  keyed : ∀ id p, w.proposals.lookup id = some p → p.id = id
  numbered : ∀ id, (w.proposals.lookup id).isSome = true ↔ 1 ≤ id ∧ id ≤ proposalCount w

theorem Registered.unused (registered : Registered w) :
    w.proposals.lookup (proposalCount w + 1) = none := by
  have := registered.numbered (proposalCount w + 1)
  rw [← Option.not_isSome_iff_eq_none, this]
  omega

theorem Registered.ne_next {id : ℕ} {p : Proposal Address} (registered : Registered w)
    (found : w.proposals.lookup id = some p) : id ≠ proposalCount w + 1 := by
  rintro rfl
  rw [registered.unused] at found
  cases found

theorem Registered.initial (init : Initial w) : Registered w := by
  obtain ⟨config, rfl, count⟩ := init
  refine ⟨fun id p stored => by simp at stored, fun id => ?_⟩
  have none_counted : proposalCount ({ config } : World Address) = 0 := by
    cases config with
    | none => rfl
    | some c => exact count c rfl
  simp
  omega

theorem lookup_writeProposal (p : Proposal Address) (w : World Address) (id : ℕ) :
    (writeProposal p w).proposals.lookup id =
      if id = p.id then some p else w.proposals.lookup id := Store.lookup_set ..

theorem Registered.rewrite {p p' : Proposal Address} {id : ℕ} (registered : Registered w)
    (found : w.proposals.lookup id = some p) (same : p'.id = p.id) :
    Registered (writeProposal p' w) := by
  have key : p'.id = id := same.trans (registered.keyed id p found)
  constructor
  · intro i q stored
    rw [lookup_writeProposal] at stored
    split_ifs at stored with here
    · obtain rfl := Option.some.inj stored
      exact here.symm
    · exact registered.keyed i q stored
  · intro i
    rw [lookup_writeProposal]
    split_ifs with here
    · rw [here, key]
      have stored := (registered.numbered id).1 (by rw [found]; rfl)
      exact iff_of_true rfl stored
    · exact registered.numbered i

def Call.initializes : Call Address → Bool
  | .initializeGovernance .. => true
  | _ => false

/-- The call does not initialize a contract that has proposals. -/
def InitializesFirst (w : World Address) (action : Action Address) : Prop :=
  action.call.initializes = true → w.proposals.keys = []

instance (w : World Address) (action : Action Address) : Decidable (InitializesFirst w action) :=
  inferInstanceAs (Decidable (_ → _))

theorem lookup_of_keys_nil (empty : w.proposals.keys = []) (id : ℕ) :
    w.proposals.lookup id = none := by
  rw [AList.lookup_eq_none]
  simp [AList.mem_keys, empty]

end Register

theorem Registered.step {action : Action Address} (registered : Registered w)
    (first : InitializesFirst w action) (step : Step w action w') : Registered w' := by
  obtain ⟨host, call, reported⟩ := action
  have effect : Effect host w call reported w' := exec_effect step
  cases effect with
  | initializeGovernance =>
    have none_left := lookup_of_keys_nil (first rfl)
    constructor
    · intro id p stored
      exact absurd (stored.symm.trans (none_left id)) (by simp)
    · intro id
      show (w.proposals.lookup id).isSome = true ↔ 1 ≤ id ∧ id ≤ 0
      rw [none_left id]
      simp
      omega
  | setAdmin authorized =>
    obtain ⟨_, stored, -⟩ := authorized
    refine ⟨registered.keyed, fun id => (registered.numbered id).trans ?_⟩
    simp [proposalCount, writeAdministrator, writeConfig, readConfig, stored]
  | setVotingPower => exact ⟨registered.keyed, registered.numbered⟩
  | cancelProposalAdmin _ found | startVoting _ found => exact registered.rewrite found rfl
  | @castVote proposalId _ _ found =>
    have voted : Registered (setVoted proposalId host.invoker w) :=
      ⟨registered.keyed, registered.numbered⟩
    exact voted.rewrite found (Proposal.counted_id ..)
  | queueProposal found | executeProposal found => exact registered.rewrite found rfl
  | delegate | expireVote => exact ⟨registered.keyed, registered.numbered⟩
  | createProposal =>
    rw [readConfig_count]
    constructor
    · intro id p stored
      rw [lookup_writeProposal] at stored
      split_ifs at stored with here
      · obtain rfl := Option.some.inj stored
        exact here.symm
      · exact registered.keyed id p stored
    · intro id
      have before := registered.numbered id
      show (AList.lookup id (w.proposals.set (proposalCount w + 1) _)).isSome = true ↔
        1 ≤ id ∧ id ≤ proposalCount w + 1
      rw [Store.lookup_set]
      split_ifs with here
      · simp only [Option.isSome_some, true_iff]
        omega
      · rw [before]
        omega

/-! ## Running calls -/

def perform (w : World Address) (action : Action Address) : Result (World Address) := do
  let (reported, w') ← exec action.host w action.call
  ensure (reported = action.reported)
  pure w'

theorem perform_step {action : Action Address} (h : perform w action = .ok w') :
    Step w action w' := by
  unfold perform at h
  simp only [ok_iff] at h
  obtain ⟨⟨_, _⟩, done, _, rfl, rfl⟩ := h
  exact done

/-! ## Runs under a clock -/

structure Clocked (Address : Type) where
  world : World Address
  now : ℕ := 0

def Clocked.Step (s : Clocked Address) (action : Action Address) (s' : Clocked Address) : Prop :=
  s.now ≤ action.host.timestamp ∧ s'.now = action.host.timestamp ∧
    Governance.Step s.world action s'.world

def Clocked.perform (s : Clocked Address) (action : Action Address) : Result (Clocked Address) := do
  ensure (s.now ≤ action.host.timestamp)
  let world ← Governance.perform s.world action
  pure ⟨world, action.host.timestamp⟩

theorem Clocked.perform_step {s s' : Clocked Address} {action : Action Address}
    (h : s.perform action = .ok s') : s.Step action s' := by
  unfold Clocked.perform at h
  simp only [ok_iff] at h
  obtain ⟨_, ordered, _, done, rfl⟩ := h
  exact ⟨ordered, rfl, Governance.perform_step done⟩

def signedBy (invoker timestamp : ℕ) (call : Call ℕ) (reported : Option ℕ := none) : Action ℕ :=
  ⟨⟨timestamp, invoker, fun _ => true, 99⟩, call, reported⟩

end Governance
