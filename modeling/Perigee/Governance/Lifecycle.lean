import Perigee.Governance.Effects

/-!
# The life of a proposal

The ids of proposals come from a counter in the configuration, which `initialize` resets: as long as
it is not called once there are proposals, ids are fresh and every proposal follows its life
(`lifecycle`); if it is, the next proposal overwrites the first one.
-/

namespace Governance

open Soroban

variable {Address : Type} [DecidableEq Address] {host : Host Address} {w w' : World Address}

/-- The moves of the state of a proposal, `none` before it is created. -/
inductive Moves : Option ProposalState → Option ProposalState → Prop
  | stay {state : Option ProposalState} : Moves state state
  | create : Moves none (some .draft)
  | start : Moves (some .draft) (some .voting)
  | queue : Moves (some .voting) (some .queued)
  | execute : Moves (some .queued) (some .executed)
  | cancel {state : ProposalState} : state ≠ .executed → Moves (some state) (some .cancelled)

/-- What decides on a proposal: its votes, its quorum and the end of its vote. -/
def Proposal.tally (p : Proposal Address) : ℤ × ℤ × ℤ × ℕ :=
  (p.forVotes, p.againstVotes, p.quorumRequired, p.endTime)

/-- A step creates only new ids, moves states forward, and leaves what decides on a proposal alone
once its vote has ended. -/
structure Lawful (w : World Address) (action : Action Address) (w' : World Address) : Prop where
  created : ∀ id, action.reported = some id →
    w.proposals.lookup id = none ∧ (w'.proposals.lookup id).isSome = true
  moves : ∀ id, Moves ((w.proposals.lookup id).map Proposal.state)
    ((w'.proposals.lookup id).map Proposal.state)
  settled : ∀ id p p', w.proposals.lookup id = some p → w'.proposals.lookup id = some p' →
    p.state ≠ .draft → p.state = .voting ∧ action.host.timestamp ≤ p.endTime ∨ p'.tally = p.tally

section Lawful

variable {action : Action Address}

omit [DecidableEq Address] in
theorem Lawful.of_same (silent : action.reported = none) (same : w'.proposals = w.proposals) :
    Lawful w action w' := by
  refine ⟨fun id created => ?_, fun id => ?_, fun id p _ before after _ => .inr ?_⟩
  · rw [silent] at created
    cases created
  · rw [same]
    exact .stay
  · rw [same] at after
    rw [Option.mem_unique before after]

omit [DecidableEq Address] in
/-- Rewriting one proposal is lawful if its state moves forward and its tally is settled. -/
theorem Lawful.of_write {id : ℕ} {p p' : Proposal Address} {w₁ : World Address}
    (registered : Registered w) (silent : action.reported = none)
    (found : w.proposals.lookup id = some p) (same : p'.id = p.id)
    (base : w₁.proposals = w.proposals) (move : Moves (some p.state) (some p'.state))
    (settled : p.state ≠ .draft →
      p.state = .voting ∧ action.host.timestamp ≤ p.endTime ∨ p'.tally = p.tally) :
    Lawful w action (writeProposal p' w₁) := by
  have key : p'.id = id := same.trans (registered.keyed id p found)
  refine ⟨fun i created => ?_, fun i => ?_, fun i q _ before stored past => ?_⟩
  · rw [silent] at created
    cases created
  · rw [lookup_writeProposal, base, key]
    split_ifs with here
    · rw [here, found]
      exact move
    · exact .stay
  · rw [lookup_writeProposal, base, key] at stored
    split_ifs at stored with here
    · rw [here, found] at before
      obtain rfl := Option.some.inj before
      obtain rfl := Option.some.inj stored
      exact settled past
    · rw [Option.mem_unique before stored]
      exact .inr rfl

theorem Lawful.step (registered : Registered w) (first : InitializesFirst w action)
    (step : Governance.Step w action w') : Lawful w action w' := by
  obtain ⟨host, call, reported⟩ := action
  have effect : Effect host w call reported w' := exec_effect step
  cases effect with
  | initializeGovernance | setAdmin | setVotingPower | delegate | expireVote =>
    exact .of_same rfl rfl
  | cancelProposalAdmin _ found live =>
    exact .of_write registered rfl found rfl rfl (.cancel live) fun _ => .inr rfl
  | startVoting _ found draft =>
    refine .of_write registered rfl found rfl rfl ?_ fun past => absurd draft past
    rw [draft]
    exact .start
  | castVote found voting _ window =>
    refine .of_write registered rfl found (Proposal.counted_id ..) rfl ?_
      fun _ => .inl ⟨voting, window.2⟩
    rw [Proposal.counted_state]
    exact .stay
  | queueProposal found voting =>
    refine .of_write registered rfl found rfl rfl ?_ fun _ => .inr rfl
    rw [voting]
    exact .queue
  | executeProposal found queued =>
    refine .of_write registered rfl found rfl rfl ?_ fun _ => .inr rfl
    rw [queued]
    exact .execute
  | createProposal =>
    have unused : w.proposals.lookup ((readConfig host w).proposalCount + 1) = none := by
      rw [readConfig_count]
      exact registered.unused
    refine ⟨fun id created => ?_, fun id => ?_, fun id p _ before after _ => .inr ?_⟩
    · obtain rfl := Option.some.inj created
      refine ⟨unused, ?_⟩
      rw [lookup_writeProposal, if_pos (by rfl)]
      rfl
    · rw [lookup_writeProposal]
      split_ifs with here
      · obtain rfl : id = (readConfig host w).proposalCount + 1 := here
        rw [unused]
        exact .create
      · exact .stay
    · rw [lookup_writeProposal] at after
      split_ifs at after with here
      · obtain rfl : id = (readConfig host w).proposalCount + 1 := here
        rw [unused] at before
        cases before
      · rw [Option.mem_unique before after]

end Lawful

variable {p : Proposal Address} {action : Action Address}

/-! ## What an executed proposal has earned -/

def timelockDelay (w : World Address) : ℕ := w.config.elim 0 GovernanceConfig.timelockDelay

/-- The proposal has passed, was queued after its vote, and was executed after the delay. -/
structure Earned (delay : ℕ) (p : Proposal Address) : Prop where
  majority : p.againstVotes < p.forVotes
  quorum : p.quorumRequired ≤ p.forVotes
  ended : p.endTime < p.queuedTime
  delayed : p.state = .executed → p.queuedTime + delay ≤ p.executedTime

/-- Whatever is queued or executed has earned it. -/
def Earning (w : World Address) : Prop :=
  ∀ id p, w.proposals.lookup id = some p → p.state = .queued ∨ p.state = .executed →
    Earned (timelockDelay w) p

omit [DecidableEq Address] in
theorem Earning.of_write {w₁ : World Address} (earning : Earning w)
    (base : w₁.proposals = w.proposals) (same : timelockDelay w₁ = timelockDelay w)
    (earned : p.state = .queued ∨ p.state = .executed → Earned (timelockDelay w) p) :
    Earning (writeProposal p w₁) := by
  intro id q stored reached
  rw [lookup_writeProposal, base] at stored
  have same : timelockDelay (writeProposal p w₁) = timelockDelay w := same
  rw [same]
  split_ifs at stored
  · obtain rfl := Option.some.inj stored
    exact earned reached
  · exact earning id q stored reached

omit [DecidableEq Address] in
theorem Registered.configured (registered : Registered w) {id : ℕ}
    (found : w.proposals.lookup id = some p) : ∃ config, w.config = some config := by
  have numbered := (registered.numbered id).1 (by rw [found]; rfl)
  cases h : w.config with
  | some config => exact ⟨config, rfl⟩
  | none =>
    have none_counted : proposalCount w = 0 := by rw [proposalCount, h, Option.elim_none]
    omega

omit [DecidableEq Address] in
theorem readConfig_delay {config : GovernanceConfig Address} (stored : w.config = some config) :
    (readConfig host w).timelockDelay = timelockDelay w := by
  rw [readConfig, timelockDelay, stored]
  rfl

theorem Earning.step (registered : Registered w) (earning : Earning w)
    (first : InitializesFirst w action) (step : Governance.Step w action w') : Earning w' := by
  obtain ⟨host, call, reported⟩ := action
  have effect : Effect host w call reported w' := exec_effect step
  cases effect with
  | initializeGovernance =>
    intro id p stored
    exact absurd (stored.symm.trans (lookup_of_keys_nil (first rfl) id)) (by simp)
  | @setAdmin newAdmin authorized =>
    obtain ⟨config, stored, -⟩ := authorized
    have same : timelockDelay (writeAdministrator host newAdmin w) = timelockDelay w :=
      readConfig_delay stored
    intro id p found reached
    rw [same]
    exact earning id p found reached
  | setVotingPower | delegate | expireVote => exact earning
  | cancelProposalAdmin | startVoting => exact earning.of_write rfl rfl (by simp)
  | castVote _ voting => exact earning.of_write rfl rfl (by simp [voting])
  | queueProposal _ _ ended majority quorum =>
    exact earning.of_write rfl rfl fun _ => ⟨majority, quorum, ended, by simp⟩
  | executeProposal found queued ready =>
    obtain ⟨config, stored⟩ := registered.configured found
    have earned := earning _ _ found (.inl queued)
    rw [readConfig_delay stored] at ready
    exact earning.of_write rfl rfl fun _ =>
      ⟨earned.majority, earned.quorum, earned.ended, fun _ => ready⟩
  | createProposal =>
    intro id p stored reached
    rw [lookup_writeProposal] at stored
    split_ifs at stored
    · obtain rfl := Option.some.inj stored
      simp [draftProposal] at reached
    · obtain ⟨config, configured⟩ := registered.configured stored
      have same : (readConfig host w).timelockDelay = timelockDelay w :=
        readConfig_delay configured
      have earned := earning id p stored reached
      rw [← same] at earned
      exact earned

/-! ## Runs -/

theorem Moves.isSome {before after : Option ProposalState} (moves : Moves before after)
    (stored : before.isSome = true) : after.isSome = true := by
  cases moves with
  | stay => exact stored
  | create => cases stored
  | _ => rfl

def createdIds (actions : List (Action Address)) : List ℕ := actions.filterMap Action.reported

/-- What a run that forgets no proposals has kept. -/
structure Lived (actions : List (Action Address)) (w : World Address) : Prop where
  registered : Registered w
  earning : Earning w
  nodup : (createdIds actions).Nodup
  stored : ∀ id ∈ createdIds actions, (w.proposals.lookup id).isSome = true

theorem Lived.snoc {actions : List (Action Address)} (lived : Lived actions w)
    (first : InitializesFirst w action) (step : Governance.Step w action w') :
    Lived (actions ++ [action]) w' := by
  have lawful := Lawful.step lived.registered first step
  have kept (id : ℕ) (mem : id ∈ createdIds actions) : (w'.proposals.lookup id).isSome = true := by
    have moved := (lawful.moves id).isSome (by simpa using lived.stored id mem)
    simpa using moved
  refine ⟨lived.registered.step first step, lived.earning.step lived.registered first step, ?_, ?_⟩
  · cases h : action.reported with
    | none => simpa [createdIds, h] using lived.nodup
    | some new =>
      have unseen : new ∉ createdIds actions := by
        intro mem
        have old := lived.stored new mem
        rw [(lawful.created new h).1] at old
        cases old
      rw [createdIds, List.filterMap_append, List.nodup_append]
      refine ⟨lived.nodup, by simp [h], ?_⟩
      rintro id mem _ mem' rfl
      obtain rfl : id = new := by simpa [h] using mem'
      exact unseen mem
  · intro id mem
    rw [createdIds, List.filterMap_append, List.mem_append] at mem
    rcases mem with old | new
    · exact kept id old
    · have reported : action.reported = some id := by simpa using new
      exact (lawful.created id reported).2

/-- If no call initializes a contract that has proposals, no id is created twice, every step is
lawful, and what is executed has passed and waited for the delay.  Once there are proposals, a
second initialization lets the next call create the first one again. -/
theorem lifecycle {s₀ s : Clocked Address} {actions : List (Action Address)}
    (init : Initial s₀.world)
    (run : Run (Guarded (fun s => InitializesFirst s.world) Clocked.Step) s₀ actions s) :
    (createdIds actions).Nodup ∧
      Run (fun s action s' => s.Step action s' ∧ Lawful s.world action s'.world) s₀ actions s ∧
      (∀ id p, s.world.proposals.lookup id = some p → p.state = .executed →
        Earned (timelockDelay s.world) p) ∧
      (s.world.proposals.keys ≠ [] → ∀ host admin votingPeriod delay quorumPercentage title
        description calls, (s.world.proposals.lookup 1).isSome = true ∧ ∃ w₂, exec host
          (initializeGovernance admin votingPeriod delay quorumPercentage s.world)
          (.createProposal title description calls) = .ok (some 1, w₂)) := by
  have lived : Lived actions s.world ∧
      Run (fun s action s' => s.Step action s' ∧ Lawful s.world action s'.world) s₀ actions s := by
    induction run with
    | nil =>
      have registered := Registered.initial init
      refine ⟨⟨registered, fun id p stored => ?_, List.nodup_nil, by simp [createdIds]⟩, .nil⟩
      obtain ⟨_, start, -⟩ := init
      rw [start] at stored
      simp at stored
    | snoc _ last ih =>
      obtain ⟨lived, lawfully⟩ := ih
      obtain ⟨first, step⟩ := last
      exact ⟨lived.snoc first step.2.2,
        lawfully.snoc ⟨step, Lawful.step lived.registered first step.2.2⟩⟩
  refine ⟨lived.1.nodup, lived.2, fun id p stored done => ?_, fun proposals => ?_⟩
  · exact lived.1.earning id p stored (.inr done)
  · obtain ⟨id, mem⟩ := List.exists_mem_of_ne_nil _ proposals
    have numbered := (lived.1.registered.numbered id).1 (AList.lookup_isSome.2 mem)
    have first := (lived.1.registered.numbered 1).2 ⟨le_rfl, numbered.1.trans numbered.2⟩
    exact fun _ _ _ _ _ _ _ _ => ⟨first, _, rfl⟩

def executedProposal : List (Action ℕ) :=
  [signedBy 0 0 (.initializeGovernance 0 100 10 1), signedBy 0 0 (.setVotingPower 1 10),
    signedBy 3 1 (.createProposal "title" "description" []) (some 1), signedBy 0 2 (.startVoting 1),
    signedBy 1 3 (.castVote 1 true), signedBy 4 103 (.queueProposal 1),
    signedBy 4 113 (.executeProposal 1)]

theorem executedProposal_earned :
    ∃ s p, Run (Guarded (fun s => InitializesFirst s.world) Clocked.Step) ⟨{}, 0⟩
      executedProposal s ∧ s.world.proposals.lookup 1 = some p ∧ p.state = .executed ∧
      Earned (timelockDelay s.world) p := by
  obtain ⟨s, run, executed⟩ : ∃ s,
      Run (Guarded (fun s => InitializesFirst s.world) Clocked.Step) ⟨{}, 0⟩ executedProposal s ∧
        (s.world.proposals.lookup 1).map Proposal.state = some .executed :=
    exists_guarded_run (fun _ _ _ => Clocked.perform_step) (by decide +kernel)
  obtain ⟨p, found, done⟩ := Option.map_eq_some_iff.1 executed
  exact ⟨s, p, run, found, done, (lifecycle ⟨none, rfl, by simp⟩ run).2.2.1 1 p found done⟩

/-- The contract is initialized again and a proposal is created. -/
def restarted : List (Action ℕ) :=
  [signedBy 5 114 (.initializeGovernance 5 100 10 1),
    signedBy 5 115 (.createProposal "other" "description" []) (some 1)]

/-- The id of an executed proposal is created once more, as a draft. -/
theorem executed_becomes_draft :
    ∃ s₁ s : Clocked ℕ, Run Clocked.Step ⟨{}, 0⟩ executedProposal s₁ ∧
      (s₁.world.proposals.lookup 1).map Proposal.state = some .executed ∧
      Run Clocked.Step s₁ restarted s ∧
      (s.world.proposals.lookup 1).map Proposal.state = some .draft ∧
      ¬ (createdIds (executedProposal ++ restarted)).Nodup := by
  obtain ⟨s₁, before, executed, s, after, draft⟩ :
      ∃ s₁, executedProposal.foldlM Clocked.perform ⟨{}, 0⟩ = .ok s₁ ∧
        (s₁.world.proposals.lookup 1).map Proposal.state = some .executed ∧
        ∃ s, restarted.foldlM Clocked.perform s₁ = .ok s ∧
          (s.world.proposals.lookup 1).map Proposal.state = some .draft := by
    decide +kernel
  have carry (s : Clocked ℕ) (l : Action ℕ) (s' : Clocked ℕ) (done : s.perform l = .ok s') :
      s.Step l s' := Clocked.perform_step done
  exact ⟨s₁, s, .of_foldlM carry before, executed, .of_foldlM carry after, draft, by decide⟩

end Governance
