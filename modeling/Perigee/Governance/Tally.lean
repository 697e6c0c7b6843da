import Perigee.Governance.Delegation

/-!
# Votes and powers

A vote counts the voter's own power and everything delegated to the voter, whether or not the voter
has delegated its own power, and a delegation can be moved after it was counted.  The record of a
vote can expire while the vote goes on, and then the voter can vote again.
-/

namespace Governance

open Soroban

variable {Address : Type} [DecidableEq Address] {host : Host Address} {w w' : World Address}
  {id : ℕ} {totals : Store Address ℤ} {p : Proposal Address} {reported : Option ℕ}

/-- The power of the user may be in the votes of the proposal: the user or the user's delegate has
voted. -/
def mayBeCounted (w : World Address) (id : ℕ) (user : Address) : Bool :=
  hasVoted w id user || (readDelegate w user).any (hasVoted w id)

/-- The sum of the powers that may be in the votes of the proposal. -/
def countedPower (w : World Address) (id : ℕ) : ℤ :=
  w.votingPower.sumBy fun user power => if mayBeCounted w id user then power else 0

def totalPower (w : World Address) : ℤ := w.votingPower.sumBy fun _ power => power

def Call.ofVoting : Call Address → Bool
  | .setVotingPower .. | .delegate _ | .createProposal .. | .startVoting _ | .castVote ..
  | .expireVote .. => true
  | _ => false

def Call.votedOn : Call Address → Option ℕ
  | .castVote proposalId _ => some proposalId
  | _ => none

def Call.chosen : Call Address → Option Address
  | .delegate d => some d
  | _ => none

def Call.forgets : Call Address → Option ℕ
  | .expireVote proposalId _ => some proposalId
  | _ => none

/-- A call of a vote: it assigns no negative power, and none once the proposal is past its draft. -/
def VotingCall (id : ℕ) (w : World Address) (action : Action Address) : Prop :=
  action.call.ofVoting = true ∧
    ∀ a ∈ action.call.assigned, 0 ≤ a.2 ∧ ∀ p ∈ w.proposals.lookup id, p.state = .draft

/-- The call cannot count a power twice: a power that is delegated is not changed, a power that may
have been counted is not delegated, who has a delegate does not vote, and no record of a vote on the
proposal expires before the vote has ended. -/
def CountsOnce (id : ℕ) (w : World Address) (action : Action Address) : Prop :=
  FixedWhileDelegated w action ∧
    (action.call.chosen.isSome = true → mayBeCounted w id action.host.invoker = false) ∧
    (action.call.votedOn = some id → readDelegate w action.host.invoker = none) ∧
    (action.call.forgets = some id →
      ∀ p ∈ w.proposals.lookup id, p.endTime < action.host.timestamp)

instance (w : World Address) (action : Action Address) : Decidable (VotingCall id w action) :=
  inferInstanceAs (Decidable (_ ∧ _))

instance (w : World Address) (action : Action Address) : Decidable (CountsOnce id w action) :=
  inferInstanceAs (Decidable (_ ∧ _ ∧ _ ∧ _))

/-! ## The counted power after a call -/

theorem sumBy_user (w : World Address) (user : Address) :
    w.votingPower.sumBy (fun u power => if u = user then power else 0) =
      readVotingPower w user := by
  have exchange := Store.share_add_sumBy_of_agree
    (f := fun u (power : ℤ) => if u = user then power else 0) (g := fun _ _ => 0) w.votingPower user
    (fun u power other => if_neg other)
  have own : w.votingPower.share (fun u power => if u = user then power else 0) user =
      readVotingPower w user := (Store.share_eq_getD _ _ _ (by simp)).trans (if_pos rfl)
  have zero : w.votingPower.sumBy (fun _ _ => (0 : ℤ)) = 0 := by simp [Store.sumBy]
  have none_share : w.votingPower.share (fun _ _ => (0 : ℤ)) user = 0 :=
    Store.share_eq_getD (d := 0) _ _ _ rfl
  rw [own, zero, none_share, add_zero, zero_add] at exchange
  exact exchange.symm

theorem countedPower_nonneg (nonneg : PowersNonneg w) : 0 ≤ countedPower w id := by
  refine Store.sumBy_nonneg _ _ fun e he => ?_
  have power := nonneg _ _ ((Store.mem_entries_iff _ _).1 he)
  split_ifs
  · exact power
  · exact le_rfl

theorem countedPower_le_totalPower (nonneg : PowersNonneg w) :
    countedPower w id ≤ totalPower w := by
  refine Store.sumBy_mono fun user power stored => ?_
  split_ifs
  · exact le_rfl
  · exact nonneg user power stored

theorem hasVoted_setVoted (w : World Address) (i : ℕ) (voter : Address) (user : Address) :
    hasVoted (setVoted i voter w) id user =
      (decide (id = i ∧ user = voter) || hasVoted w id user) := by
  unfold hasVoted setVoted
  rw [Store.lookup_set]
  by_cases same : id = i ∧ user = voter
  · simp [same]
  · rw [if_neg fun h => same (Prod.mk.inj h), decide_eq_false same, Bool.false_or]

theorem countedPower_setVoted {voter : Address} (fresh : hasVoted w id voter = false)
    (own : readDelegate w voter = none)
    (voters : ∀ user, hasVoted w id user = true → readDelegate w user = none) :
    countedPower (setVoted id voter w) id =
      countedPower w id + (readVotingPower w voter + delegatedTo w voter) := by
  rw [← sumBy_user w voter]
  unfold countedPower delegatedTo
  rw [← Store.sumBy_add, ← Store.sumBy_add]
  refine Store.sumBy_congr fun user _ _ => ?_
  -- a user is the voter, delegates to the voter, or is counted as before
  by_cases self : user = voter
  · subst self
    have before : mayBeCounted w id user = false := by simp [mayBeCounted, fresh, own]
    have after : mayBeCounted (setVoted id user w) id user = true := by
      simp [mayBeCounted, hasVoted_setVoted]
    simp [before, after, own]
  · by_cases delegated : readDelegate w user = some voter
    · have unvoted : hasVoted w id user = false := by
        by_contra voted
        have := voters user (by simpa using voted)
        rw [delegated] at this
        cases this
      have before : mayBeCounted w id user = false := by
        simp [mayBeCounted, unvoted, delegated, fresh]
      have after : mayBeCounted (setVoted id voter w) id user = true := by
        have kept : readDelegate (setVoted id voter w) user = some voter := delegated
        simp [mayBeCounted, hasVoted_setVoted, kept]
      simp [before, after, self, delegated]
    · have same : mayBeCounted (setVoted id voter w) id user = mayBeCounted w id user := by
        have kept : readDelegate (setVoted id voter w) user = readDelegate w user := rfl
        unfold mayBeCounted
        rw [kept, hasVoted_setVoted]
        cases d : readDelegate w user with
        | none => simp [self]
        | some delegate =>
          have other : delegate ≠ voter := by
            rintro rfl
            exact delegated d
          simp [self, other, hasVoted_setVoted]
      simp [same, self, delegated]

theorem countedPower_delegate {delegator delegate : Address} (nonneg : PowersNonneg w)
    (uncounted : mayBeCounted w id delegator = false) :
    countedPower w id ≤ countedPower { w with
      delegatedPower := w.delegatedPower.set delegator delegate
      delegate := totals } id := by
  refine Store.sumBy_mono fun user power stored => ?_
  have power_nonneg := nonneg user power stored
  by_cases self : user = delegator
  · subst self
    rw [uncounted]
    simp only [Bool.false_eq_true, if_false]
    split_ifs
    · exact power_nonneg
    · exact le_rfl
  · have same : mayBeCounted { w with
        delegatedPower := w.delegatedPower.set delegator delegate
        delegate := totals } id user = mayBeCounted w id user := by
      simp only [mayBeCounted, readDelegate, Store.lookup_set_of_ne _ _ self]
      rfl
    rw [same]

/-! ## Runs -/

/-- What holds as long as no power is counted twice. -/
structure Counts (id : ℕ) (w : World Address) : Prop where
  registered : Registered w
  nonneg : PowersNonneg w
  ledger : LedgerHolds w
  voters : ∀ user, hasVoted w id user = true → readDelegate w user = none
  opened : ∀ user, hasVoted w id user = true → ∃ p ∈ w.proposals.lookup id, p.state ≠ .draft
  unvoted : ∀ p ∈ w.proposals.lookup id, p.state = .draft → p.forVotes + p.againstVotes = 0
  tally : ∀ p ∈ w.proposals.lookup id, p.forVotes + p.againstVotes ≤ countedPower w id

theorem Counts.initial (init : Initial w) : Counts id w := by
  have registered := Registered.initial init
  obtain ⟨_, rfl, -⟩ := init
  exact {
    registered
    nonneg := by simp [PowersNonneg]
    ledger := fun d => rfl
    voters := by simp [hasVoted]
    opened := by simp [hasVoted]
    unvoted := by simp
    tally := by simp }

theorem Counts.rewrite {p' : Proposal Address} {i : ℕ} (counts : Counts id w)
    (found : w.proposals.lookup i = some p) (same : p'.id = p.id) (past : p'.state ≠ .draft)
    (votes : i = id → p'.forVotes + p'.againstVotes = p.forVotes + p.againstVotes) :
    Counts id (writeProposal p' w) := by
  have key : p'.id = i := same.trans (counts.registered.keyed i p found)
  have stored (q : Proposal Address) (h : q ∈ (writeProposal p' w).proposals.lookup id) :
      (id = i ∧ q = p') ∨ q ∈ w.proposals.lookup id := by
    rw [lookup_writeProposal, key] at h
    split_ifs at h with here
    · exact .inl ⟨here, (Option.mem_some_iff.1 h).symm⟩
    · exact .inr h
  refine ⟨counts.registered.rewrite found same, counts.nonneg, counts.ledger, counts.voters, ?_, ?_,
    ?_⟩
  · intro user voted
    obtain ⟨q, h, opened⟩ := counts.opened user voted
    rw [lookup_writeProposal]
    split_ifs with here
    · exact ⟨p', rfl, past⟩
    · exact ⟨q, h, opened⟩
  · intro q h draft
    rcases stored q h with ⟨-, rfl⟩ | before
    · exact absurd draft past
    · exact counts.unvoted q before draft
  · intro q h
    rcases stored q h with ⟨rfl, rfl⟩ | before
    · rw [votes rfl]
      exact counts.tally p found
    · exact counts.tally q before

theorem Counts.setVotingPower {user : Address} {power : ℤ} (counts : Counts id w)
    (call : VotingCall id w ⟨host, .setVotingPower user power, reported⟩)
    (once : CountsOnce id w ⟨host, .setVotingPower user power, reported⟩)
    (step : Step w ⟨host, .setVotingPower user power, reported⟩ (writeVotingPower user power w)) :
    Counts id (writeVotingPower user power w) := by
  obtain ⟨power_nonneg, drafted⟩ := call.2 (user, power) rfl
  have nonneg : PowersNonneg (writeVotingPower user power w) :=
    counts.nonneg.step (by simpa [AssignsNonneg, Call.assigned] using power_nonneg) step
  refine ⟨⟨counts.registered.keyed, counts.registered.numbered⟩, nonneg,
    (ledger_writeVotingPower_iff counts.ledger user power).2 (once.1 (user, power) rfl),
    counts.voters, counts.opened, counts.unvoted, fun p found => ?_⟩
  rw [counts.unvoted p found (drafted p found)]
  exact countedPower_nonneg nonneg

theorem Counts.delegate {delegate : Address} (counts : Counts id w)
    (once : CountsOnce id w ⟨host, .delegate delegate, reported⟩)
    (moves : MovesPower w.delegate totals (readDelegate w host.invoker) delegate
      (readVotingPower w host.invoker)) :
    Counts id { w with
      delegatedPower := w.delegatedPower.set host.invoker delegate
      delegate := totals } := by
  have uncounted : mayBeCounted w id host.invoker = false := once.2.1 rfl
  refine ⟨⟨counts.registered.keyed, counts.registered.numbered⟩, counts.nonneg, fun d => ?_,
    fun user voted => ?_, counts.opened, counts.unvoted, fun p found => ?_⟩
  · rw [delegatedTo_delegate, ← counts.ledger d]
    exact moves d
  · have other : user ≠ host.invoker := by
      rintro rfl
      have voted : hasVoted w id host.invoker = true := voted
      simp [mayBeCounted, voted] at uncounted
    exact (Store.lookup_set_of_ne _ _ other).trans (counts.voters user voted)
  · exact (counts.tally p found).trans (countedPower_delegate counts.nonneg uncounted)

theorem Counts.createProposal {title description : String} {actions : List (ProposalAction Address)}
    {config : GovernanceConfig Address} {proposer : Address} (counts : Counts id w)
    (registered : Registered (writeProposal
      (draftProposal (proposalCount w + 1) proposer title description actions)
      (writeConfig config w))) :
    Counts id (writeProposal
      (draftProposal (proposalCount w + 1) proposer title description actions)
      (writeConfig config w)) := by
  have stored (q : Proposal Address) (h : q ∈ (writeProposal
      (draftProposal (proposalCount w + 1) proposer title description actions)
      (writeConfig config w)).proposals.lookup id) :
      q = draftProposal (proposalCount w + 1) proposer title description actions ∨
        q ∈ w.proposals.lookup id := by
    rw [lookup_writeProposal] at h
    split_ifs at h
    · exact .inl (Option.mem_some_iff.1 h).symm
    · exact .inr h
  refine ⟨registered, counts.nonneg, counts.ledger, counts.voters, fun user voted => ?_, ?_, ?_⟩
  · obtain ⟨q, h, opened⟩ := counts.opened user voted
    have old := counts.registered.ne_next h
    rw [lookup_writeProposal,
      if_neg (show ¬ id = (draftProposal _ _ _ _ _ : Proposal Address).id from old)]
    exact ⟨q, h, opened⟩
  · intro q h draft
    rcases stored q h with rfl | before
    · rfl
    · exact counts.unvoted q before draft
  · intro q h
    rcases stored q h with rfl | before
    · exact countedPower_nonneg (w := w) counts.nonneg
    · exact counts.tally q before

/-- The records of votes on other proposals do not matter. -/
theorem Counts.of_hasVoted {records : Store (ℕ × Address) Bool} (counts : Counts id w)
    (same : ∀ user, hasVoted { w with hasVoted := records } id user = hasVoted w id user) :
    Counts id { w with hasVoted := records } := by
  have power : countedPower { w with hasVoted := records } id = countedPower w id := by
    refine Store.sumBy_congr fun user power _ => ?_
    simp only [mayBeCounted, funext same]
    rfl
  exact {
    registered := ⟨counts.registered.keyed, counts.registered.numbered⟩
    nonneg := counts.nonneg
    ledger := counts.ledger
    voters := fun user voted => counts.voters user ((same user).symm.trans voted)
    opened := fun user voted => counts.opened user ((same user).symm.trans voted)
    unvoted := counts.unvoted
    tally := fun q h => (counts.tally q h).trans power.ge }

theorem Counts.castVote {i : ℕ} {support : Bool} (counts : Counts id w)
    (once : CountsOnce id w ⟨host, .castVote i support, reported⟩)
    (found : w.proposals.lookup i = some p) (voting : p.state = .voting)
    (fresh : hasVoted w i host.invoker = false) :
    Counts id (writeProposal
      (p.counted support (readVotingPower w host.invoker + w.delegate.getD host.invoker 0))
      (setVoted i host.invoker w)) := by
  have state : (p.counted support
      (readVotingPower w host.invoker + w.delegate.getD host.invoker 0)).state ≠ .draft := by
    simp [voting]
  by_cases here : i = id
  · subst here
    have own : readDelegate w host.invoker = none := once.2.2.1 rfl
    have key := counts.registered.keyed i p found
    have registered : Registered (setVoted i host.invoker w) :=
      ⟨counts.registered.keyed, counts.registered.numbered⟩
    have stored : (writeProposal (p.counted support
        (readVotingPower w host.invoker + w.delegate.getD host.invoker 0))
        (setVoted i host.invoker w)).proposals.lookup i = some (p.counted support
          (readVotingPower w host.invoker + w.delegate.getD host.invoker 0)) := by
      rw [lookup_writeProposal, Proposal.counted_id, key, if_pos rfl]
    refine ⟨registered.rewrite found (Proposal.counted_id ..), counts.nonneg, counts.ledger,
      fun user voted => ?_, fun user _ => ⟨_, stored, state⟩, ?_, ?_⟩
    · have voted : hasVoted (setVoted i host.invoker w) i user = true := voted
      rw [hasVoted_setVoted] at voted
      by_cases self : user = host.invoker
      · rw [self]
        exact own
      · exact counts.voters user (by simpa [self] using voted)
    · intro q h draft
      obtain rfl := Option.mem_unique stored h
      exact absurd draft state
    · intro q h
      obtain rfl := Option.mem_unique stored h
      calc _ = p.forVotes + p.againstVotes +
            (readVotingPower w host.invoker + w.delegate.getD host.invoker 0) :=
          Proposal.counted_votes ..
        _ ≤ countedPower w i + (readVotingPower w host.invoker + delegatedTo w host.invoker) := by
          rw [counts.ledger]
          exact add_le_add_left (counts.tally p found) _
        _ = countedPower (setVoted i host.invoker w) i :=
          (countedPower_setVoted fresh own counts.voters).symm
  · -- a vote on another proposal changes nothing about this one
    have others : Counts id (setVoted i host.invoker w) := counts.of_hasVoted fun user => by
      show hasVoted (setVoted i host.invoker w) id user = hasVoted w id user
      rw [hasVoted_setVoted, decide_eq_false fun h => here h.1.symm, Bool.false_or]
    exact others.rewrite found (Proposal.counted_id ..) state fun h => absurd h here

/-- Once the vote has ended and a record of it has expired, nothing is known of who has voted, but
the votes are final. -/
structure Closed (id : ℕ) (now : ℕ) (w : World Address) : Prop where
  registered : Registered w
  ended : ∃ p, w.proposals.lookup id = some p ∧ p.state ≠ .draft ∧ p.endTime < now ∧
    p.forVotes + p.againstVotes ≤ totalPower w

theorem Counts.step {action : Action Address} (counts : Counts id w)
    (call : VotingCall id w action) (once : CountsOnce id w action) (step : Step w action w')
    (registered : Registered w') : Counts id w' ∨ Closed id action.host.timestamp w' := by
  obtain ⟨host, call', reported⟩ := action
  have effect : Effect host w call' reported w' := exec_effect step
  cases effect with
  | setVotingPower => exact .inl (counts.setVotingPower call once step)
  | delegate moves => exact .inl (counts.delegate once moves)
  | createProposal =>
    rw [readConfig_count] at registered ⊢
    exact .inl (counts.createProposal registered)
  | startVoting _ found => exact .inl (counts.rewrite found rfl (by simp) fun _ => rfl)
  | castVote found voting fresh => exact .inl (counts.castVote once found voting fresh)
  | @expireVote i voter voted =>
    by_cases here : i = id
    · subst here
      obtain ⟨p, found, opened⟩ := counts.opened voter voted
      exact .inr ⟨registered, p, found, opened, once.2.2.2 rfl p found,
        (counts.tally p found).trans (countedPower_le_totalPower counts.nonneg)⟩
    · refine .inl (counts.of_hasVoted fun user => ?_)
      have other : (id, user) ≠ (i, voter) := fun h => here (Prod.mk.inj h).1.symm
      simp only [hasVoted, Store.lookup_remove_of_ne _ other]
  | _ => exact absurd call.1 (by simp [Call.ofVoting])

theorem Closed.step {action : Action Address} {now : ℕ} (closed : Closed id now w)
    (call : VotingCall id w action) (ordered : now ≤ action.host.timestamp)
    (step : Step w action w') (registered : Registered w') :
    Closed id action.host.timestamp w' := by
  obtain ⟨p, found, opened, ended, votes⟩ := closed.ended
  have later : p.endTime < action.host.timestamp := ended.trans_le ordered
  have of_kept (kept : w'.proposals.lookup id = some p) (powers : w'.votingPower = w.votingPower) :
      Closed id action.host.timestamp w' :=
    ⟨registered, p, kept, opened, later, by rwa [totalPower, powers]⟩
  obtain ⟨host, call', reported⟩ := action
  have effect : Effect host w call' reported w' := exec_effect step
  cases effect with
  | @setVotingPower user power =>
    exact absurd ((call.2 (user, power) rfl).2 p found) opened
  | delegate | expireVote => exact of_kept found rfl
  | createProposal =>
    refine of_kept ?_ rfl
    rw [readConfig_count, lookup_writeProposal]
    exact (if_neg (closed.registered.ne_next found)).trans found
  | @startVoting i q _ _ drafted draft =>
    have other : id ≠ i := by
      rintro rfl
      exact opened (Option.mem_unique found drafted ▸ draft)
    refine of_kept ?_ rfl
    rw [lookup_writeProposal]
    exact (if_neg (closed.registered.keyed i q drafted ▸ other)).trans found
  | @castVote i support q stored _ _ window =>
    have other : id ≠ i := by
      rintro rfl
      rw [Option.mem_unique stored found] at window
      exact absurd window.2 (Nat.not_le.2 later)
    refine of_kept ?_ rfl
    rw [lookup_writeProposal, Proposal.counted_id]
    exact (if_neg (closed.registered.keyed i q stored ▸ other)).trans found
  | _ => exact absurd call.1 (by simp [Call.ofVoting])

/-- The steps of a vote under a clock that count no power twice. -/
def CountedStep (id : ℕ) :
    Clocked Address → Action Address → Clocked Address → Prop :=
  Guarded (fun s a => VotingCall id s.world a ∧ CountsOnce id s.world a) Clocked.Step

/-- In a run of voting calls that count no power twice, the votes of a proposal are at most the sum
of all powers. -/
theorem votes_le_powers {s : Clocked Address}
    (reach : Reachable (fun s => Initial s.world) (CountedStep id) s) {p : Proposal Address}
    (found : s.world.proposals.lookup id = some p) :
    p.forVotes + p.againstVotes ≤ totalPower s.world := by
  have kept : Counts id s.world ∨ Closed id s.now s.world := by
    refine reach.invariant (P := fun s => Counts id s.world ∨ Closed id s.now s.world)
      (fun _ init => .inl (Counts.initial init)) ?_
    rintro s action s' kept ⟨⟨call, once⟩, ordered, now, step⟩
    have unset : InitializesFirst s.world action := by
      have voting := call.1
      intro _
      cases h : action.call <;> simp_all [Call.ofVoting, Call.initializes]
    rw [now]
    rcases kept with counts | closed
    · exact counts.step call once step (counts.registered.step unset step)
    · exact .inr (closed.step call ordered step (closed.registered.step unset step))
  rcases kept with counts | closed
  · exact (counts.tally p found).trans (countedPower_le_totalPower counts.nonneg)
  · obtain ⟨q, stored, -, -, votes⟩ := closed.ended
    rwa [Option.mem_unique found stored]

def initialized : World ℕ := initializeGovernance 0 (7 * 24 * 60 * 60) 10 1 {}

theorem initialized_initial : Initial initialized := ⟨some _, rfl, by simp⟩

def delegateVotes : List (Action ℕ) :=
  [signedBy 0 0 (.setVotingPower 1 10), signedBy 0 0 (.setVotingPower 2 5),
    signedBy 1 1 (.delegate 2), signedBy 3 2 (.createProposal "title" "description" []) (some 1),
    signedBy 0 3 (.startVoting 1), signedBy 2 4 (.castVote 1 true),
    signedBy 0 700000 (.expireVote 1 2)]

/-- The record of the vote expires after the vote. -/
theorem delegateVotes_within :
    ∃ (s : Clocked ℕ) (p : Proposal ℕ),
      Reachable (fun s => Initial s.world) (CountedStep 1) s ∧
      s.world.proposals.lookup 1 = some p ∧ p.forVotes = 15 ∧ hasVoted s.world 1 2 = false ∧
      p.forVotes + p.againstVotes ≤ totalPower s.world := by
  obtain ⟨s, run, gone, p, found, votes⟩ : ∃ s,
      Run (CountedStep 1) ⟨initialized, 0⟩ delegateVotes s ∧ hasVoted s.world 1 2 = false ∧
        ∃ p ∈ s.world.proposals.lookup 1, p.forVotes = 15 :=
    exists_guarded_run (fun _ _ _ => Clocked.perform_step) (by decide +kernel)
  have reach : Reachable (fun s => Initial s.world) (CountedStep 1) s :=
    ⟨⟨initialized, 0⟩, _, initialized_initial, run⟩
  exact ⟨s, p, reach, found, votes, gone, votes_le_powers reach found⟩

/-- A user delegates a power and votes with it too. -/
def bothVote : List (Action ℕ) :=
  [signedBy 0 0 (.setVotingPower 1 10), signedBy 1 1 (.delegate 2),
    signedBy 3 2 (.createProposal "title" "description" []) (some 1),
    signedBy 0 3 (.startVoting 1), signedBy 1 4 (.castVote 1 true),
    signedBy 2 4 (.castVote 1 true)]

/-- A user votes again when the record of its vote has expired, a day into a vote of a week. -/
def voteAgain : List (Action ℕ) :=
  [signedBy 0 0 (.setVotingPower 1 10),
    signedBy 3 2 (.createProposal "title" "description" []) (some 1),
    signedBy 0 3 (.startVoting 1), signedBy 1 4 (.castVote 1 true),
    signedBy 0 86404 (.expireVote 1 1), signedBy 1 86405 (.castVote 1 true)]

/-- After the calls a total power of 10 has been counted as 20 votes. -/
def CountedTwice (actions : List (Action ℕ)) : Prop :=
  ∃ (s : Clocked ℕ) (p : Proposal ℕ),
    Run (Guarded (fun s => VotingCall 1 s.world) Clocked.Step) ⟨initialized, 0⟩ actions s ∧
    s.world.proposals.lookup 1 = some p ∧ p.forVotes + p.againstVotes = 20 ∧
    totalPower s.world = 10

/-- The owner of the only power and its delegate both vote with it, or the owner votes twice. -/
theorem delegated_power_counted_twice : CountedTwice bothVote ∧ CountedTwice voteAgain := by
  have twice (actions : List (Action ℕ)) (chosen : actions ∈ [bothVote, voteAgain]) :
      CountedTwice actions := by
    obtain ⟨s, run, total, p, found, votes⟩ : ∃ s,
        Run (Guarded (fun s => VotingCall 1 s.world) Clocked.Step) ⟨initialized, 0⟩ actions s ∧
        totalPower s.world = 10 ∧
          ∃ p ∈ s.world.proposals.lookup 1, p.forVotes + p.againstVotes = 20 := by
      refine exists_guarded_run (fun _ _ _ => Clocked.perform_step) ?_
      revert actions
      decide +kernel
    exact ⟨s, p, run, found, votes, total⟩
  exact ⟨twice _ (by simp), twice _ (by simp)⟩

end Governance
