import Perigee.CrossChainGovernance.Messages

/-!
# The circuit breaker and the origin of records

A paused contract should call no target and change no synced record, and the records of a chain
should come from that chain.  Two calls break this: `execute_queued` does not look at the pause, and
`sync_state_root` takes the chain of its keys from the payload.
-/

namespace CrossChainGovernance

open Soroban
open Sha256 (Digest)
open Wire

variable {Address Symbol Val : Type} {message : CrossChainGovMessage} {proof : BridgeProof}
  {blockHeight : UInt64} {record : StateRootRecord} {chain : UInt32}

def Event.targetCall :
    Event Address Symbol Val → Option (Digest × Invocation Address Symbol Val)
  | .invoked id invocation => some (id, invocation)
  | _ => none

def targetCalls (log : List (Event Address Symbol Val)) :
    List (Digest × Invocation Address Symbol Val) :=
  log.filterMap Event.targetCall

@[simp] theorem targetCalls_append (log events : List (Event Address Symbol Val)) :
    targetCalls (log ++ events) = targetCalls log ++ targetCalls events :=
  List.filterMap_append

def isPaused (w : World Address Symbol Val) : Bool := w.config.any CrossChainGovConfig.paused

structure SameRecords (w w' : World Address Symbol Val) : Prop where
  proposal : w'.syncedProposal = w.syncedProposal
  votingPower : w'.syncedVotingPower = w.syncedVotingPower
  parameter : w'.syncedParameter = w.syncedParameter
  stateRoot : w'.syncedStateRoot = w.syncedStateRoot
  latest : w'.latestStateRoot = w.latestStateRoot

variable [DecidableEq Address]

structure SameChain (w w' : World Address Symbol Val) (chain : UInt32) : Prop where
  proposal : ∀ proposalId,
    w'.syncedProposal.lookup (chain, proposalId) = w.syncedProposal.lookup (chain, proposalId)
  votingPower : ∀ voter snapshotId, w'.syncedVotingPower.lookup (chain, voter, snapshotId) =
    w.syncedVotingPower.lookup (chain, voter, snapshotId)
  stateRoot : ∀ blockHeight,
    getSyncedStateRoot w' chain blockHeight = getSyncedStateRoot w chain blockHeight

structure Keeps (s s' : Traced Address Symbol Val) : Prop where
  /-- While paused no target is called and no record changes. -/
  frozen : isPaused s.world = true →
    targetCalls s'.log = targetCalls s.log ∧ SameRecords s.world s'.world
  /-- The records of a chain change by an accepted message of that chain. -/
  origin : ∀ chain, SameChain s.world s'.world chain ∨
    ∃ message proof, messages s'.log = messages s.log ++ [(message, proof)] ∧
      message.sourceChainId = chain
  /-- The latest state root does not go back. -/
  latest : ∀ chain record, getLatestStateRoot s.world chain = some record →
    ∃ record', getLatestStateRoot s'.world chain = some record' ∧
      record.blockHeight ≤ record'.blockHeight

/-- No execution while paused, and a state root names the chain of its message or repeats what is
on record. -/
def Contained (s : Traced Address Symbol Val) (action : Action Address Symbol Val) : Prop :=
  match action.call with
  | .executeQueued _ => isPaused s.world = false
  | .syncStateRoot message _ chainId blockHeight root =>
    chainId = message.sourceChainId ∨ getSyncedStateRoot s.world chainId blockHeight =
      some ⟨chainId, blockHeight, root, action.host.timestamp⟩
  | _ => True

variable {codec : Codec Address Symbol Val} {host : Host Address Symbol Val}
  {w w' : World Address Symbol Val} {call : Call Address Symbol Val}
  {events : List (Event Address Symbol Val)}

theorem SameRecords.sameChain (same : SameRecords w w') (chain : UInt32) :
    SameChain w w' chain where
  proposal _ := by rw [same.proposal]
  votingPower _ _ := by rw [same.votingPower]
  stateRoot _ := by rw [getSyncedStateRoot, same.stateRoot]; rfl

omit [DecidableEq Address] in
theorem SettingsOnly.sameRecords (settings : SettingsOnly w w') : SameRecords w w' := by
  rw [settings]
  exact ⟨rfl, rfl, rfl, rfl, rfl⟩

omit [DecidableEq Address] in
theorem Passes.not_paused {action : GovernanceActionType}
    (passes : Passes codec w message proof action) : isPaused w = false := by
  obtain ⟨_, stored, running, -⟩ := passes.here
  rw [isPaused, stored, Option.any_some, running]

/-! ## What each call keeps -/

variable [DecidableEq Symbol]

/-- Only an execution that was queued before does anything while paused. -/
theorem Effect.frozen (effect : Effect codec host w call events w') (paused : isPaused w = true)
    (waits : ∀ id, call ≠ .executeQueued id) : targetCalls events = [] ∧ SameRecords w w' := by
  have blocked {message : CrossChainGovMessage} {proof : BridgeProof}
      {action : GovernanceActionType} (passes : Passes codec w message proof action) : False :=
    Bool.false_ne_true (passes.not_paused.symm.trans paused)
  cases effect with
  | settings _ settings => exact ⟨rfl, settings.sameRecords⟩
  | queued _ passes | executed _ passes => exact (blocked passes).elim
  | executeQueued => exact absurd rfl (waits _)
  | cancelQueued => exact ⟨rfl, rfl, rfl, rfl, rfl, rfl⟩
  | proposal passes | votingPower passes | parameter passes | stateRoot passes =>
    exact (blocked passes).elim

/-- A call that brings no state root changes the records of a chain by a message of that chain. -/
theorem Effect.origin (effect : Effect codec host w call events w') (chain : UInt32)
    (own : ∀ message proof chainId blockHeight root,
      call = .syncStateRoot message proof chainId blockHeight root →
        chainId = message.sourceChainId ∨ getSyncedStateRoot w chainId blockHeight =
          some ⟨chainId, blockHeight, root, host.timestamp⟩) :
    SameChain w w' chain ∨
      ∃ message proof, messages events = [(message, proof)] ∧ message.sourceChainId = chain := by
  cases effect with
  | settings _ settings => exact .inl (settings.sameRecords.sameChain chain)
  | queued | executed | executeQueued | cancelQueued | parameter =>
    exact .inl ⟨fun _ => rfl, fun _ _ => rfl, fun _ => rfl⟩
  | @proposal message proof =>
    by_cases from_chain : message.sourceChainId = chain
    · exact .inr ⟨message, proof, rfl, from_chain⟩
    · refine .inl ⟨fun _ => Store.lookup_set_of_ne _ _ fun same => ?_, fun _ _ => rfl, fun _ => rfl⟩
      exact from_chain (congrArg Prod.fst same).symm
  | @votingPower message proof =>
    by_cases from_chain : message.sourceChainId = chain
    · exact .inr ⟨message, proof, rfl, from_chain⟩
    · refine .inl ⟨fun _ => rfl, fun _ _ => Store.lookup_set_of_ne _ _ fun same => ?_, fun _ => rfl⟩
      exact from_chain (congrArg Prod.fst same).symm
  | @stateRoot message proof _ _ root =>
    by_cases from_chain : message.sourceChainId = chain
    · exact .inr ⟨message, proof, rfl, from_chain⟩
    · refine .inl ⟨fun _ => rfl, fun _ _ => rfl, fun height => ?_⟩
      rw [getSyncedStateRoot, Store.lookup_set]
      split_ifs with same
      · obtain ⟨rfl, rfl⟩ := Prod.mk.inj same
        rcases own message proof chain height root rfl with here | repeated
        · exact absurd here.symm from_chain
        · exact repeated.symm
      · rfl

theorem Effect.executeQueued_calls {id : Digest}
    (effect : Effect codec host w (.executeQueued id) events w') : targetCalls events ≠ [] := by
  cases effect with
  | settings administers => exact administers.elim
  | executeQueued => exact List.cons_ne_nil _ _

theorem Effect.syncStateRoot_writes {chainId : UInt32} {root : Digest} (effect :
      Effect codec host w (.syncStateRoot message proof chainId blockHeight root) events w') :
    messages events = [(message, proof)] ∧ getSyncedStateRoot w' chainId blockHeight =
      some ⟨chainId, blockHeight, root, host.timestamp⟩ := by
  cases effect with
  | settings administers => exact administers.elim
  | stateRoot => exact ⟨rfl, Store.lookup_set_self _ _ _⟩

/-! ## Latest state roots -/

def Rooted (w : World Address Symbol Val) : Prop :=
  ∀ chain blockHeight, w.latestStateRoot.lookup chain = some blockHeight →
    ∃ record, getSyncedStateRoot w chain blockHeight = some record ∧
      record.blockHeight = blockHeight

structure Roots (w w' : World Address Symbol Val) (record : StateRootRecord) : Prop where
  synced : w'.syncedStateRoot =
    w.syncedStateRoot.set (record.chainId, record.blockHeight) record
  latest : w'.latestStateRoot =
    if w.latestStateRoot.getD record.chainId 0 ≤ record.blockHeight
      then w.latestStateRoot.set record.chainId record.blockHeight else w.latestStateRoot

theorem Effect.roots (effect : Effect codec host w call events w') :
    (w'.syncedStateRoot = w.syncedStateRoot ∧ w'.latestStateRoot = w.latestStateRoot) ∨
      ∃ record, Roots w w' record := by
  cases effect with
  | settings _ settings => exact .inl ⟨settings.sameRecords.stateRoot, settings.sameRecords.latest⟩
  | stateRoot => exact .inr ⟨⟨_, _, _, _⟩, rfl, rfl⟩
  | _ => exact .inl ⟨rfl, rfl⟩

omit [DecidableEq Address] [DecidableEq Symbol] in
theorem Roots.lookup_latest (roots : Roots w w' record) (chain : UInt32) :
    w'.latestStateRoot.lookup chain =
      if chain = record.chainId ∧ w.latestStateRoot.getD record.chainId 0 ≤ record.blockHeight
        then some record.blockHeight else w.latestStateRoot.lookup chain := by
  rw [roots.latest]
  by_cases higher : w.latestStateRoot.getD record.chainId 0 ≤ record.blockHeight
  · simp only [higher, and_true]
    exact Store.lookup_set ..
  · simp only [higher, and_false, if_false]

theorem Rooted.effect (rooted : Rooted w) (effect : Effect codec host w call events w') :
    Rooted w' := by
  intro chain blockHeight found
  rcases effect.roots with ⟨synced, latest⟩ | ⟨record, roots⟩
  · rw [latest] at found
    rw [getSyncedStateRoot, synced]
    exact rooted chain blockHeight found
  · rw [getSyncedStateRoot, roots.synced, Store.lookup_set]
    rw [roots.lookup_latest] at found
    split_ifs at found with written
    · obtain rfl := Option.some.inj found
      rw [written.1]
      exact ⟨record, if_pos rfl, rfl⟩
    · split_ifs with same
      · exact ⟨record, rfl, (congrArg Prod.snd same).symm⟩
      · exact rooted chain blockHeight found

theorem Rooted.latest (rooted : Rooted w) (effect : Effect codec host w call events w')
    (found : getLatestStateRoot w chain = some record) :
    ∃ record', getLatestStateRoot w' chain = some record' ∧
      record.blockHeight ≤ record'.blockHeight := by
  obtain ⟨blockHeight, latest, synced⟩ := Option.bind_eq_some_iff.1 found
  obtain ⟨_, isStored, height⟩ := rooted chain blockHeight latest
  obtain rfl := Option.mem_unique isStored synced
  obtain ⟨next, latest', below⟩ : ∃ next, w'.latestStateRoot.lookup chain = some next ∧
      blockHeight ≤ next := by
    rcases effect.roots with ⟨-, same⟩ | ⟨written, roots⟩
    · rw [same]
      exact ⟨blockHeight, latest, UInt64.le_refl _⟩
    · rw [roots.lookup_latest]
      split_ifs with moved
      · obtain ⟨here, higher⟩ := moved
        rw [Store.getD, ← here, latest] at higher
        exact ⟨written.blockHeight, rfl, higher⟩
      · exact ⟨blockHeight, latest, UInt64.le_refl _⟩
  obtain ⟨record', stored', height'⟩ := rooted.effect effect chain next latest'
  refine ⟨record', Option.bind_eq_some_iff.2 ⟨next, latest', stored'⟩, ?_⟩
  rw [height, height']
  exact below

variable {s s' : Traced Address Symbol Val} {actions : List (Action Address Symbol Val)}
  {action : Action Address Symbol Val}

theorem Rooted.run (run : Run (Step codec) {} actions s) : Rooted s.world := by
  refine run.invariant (P := fun s => Rooted s.world) ?_ fun _ _ _ rooted step => ?_
  · intro chain blockHeight found
    exact absurd found (Option.some_ne_none blockHeight).symm
  · obtain ⟨_, -, effect⟩ := step_effect step
    exact rooted.effect effect

/-! ## Every step -/

/-- In every run, a call keeps what it should exactly if it does not execute while paused and brings
no state root in the name of another chain. -/
theorem keeps_iff (run : Run (Step codec) {} actions s) (step : Step codec s action s') :
    Keeps s s' ↔ Contained s action := by
  obtain ⟨host, call⟩ := action
  obtain ⟨events, log, effect⟩ := step_effect step
  have added : messages s'.log = messages s.log ++ messages events := by
    rw [log, messages_append]
  have called : targetCalls s'.log = targetCalls s.log ++ targetCalls events := by
    rw [log, targetCalls_append]
  constructor
  · intro keeps
    cases call with
    | executeQueued =>
      refine Bool.eq_false_iff.2 fun paused => ?_
      have quiet := (keeps.frozen paused).1
      rw [called, List.append_right_eq_self] at quiet
      exact effect.executeQueued_calls quiet
    | syncStateRoot _ _ chainId blockHeight =>
      obtain ⟨only, written⟩ := effect.syncStateRoot_writes
      rcases keeps.origin chainId with same | ⟨_, _, last, source⟩
      · exact .inr ((same.stateRoot blockHeight).symm.trans written)
      · rw [added, only, List.append_cancel_left_eq] at last
        obtain ⟨rfl, -⟩ := Prod.mk.inj (List.cons.inj last).1
        exact .inl source.symm
    | _ => trivial
  · intro contained
    refine ⟨fun paused => ?_, fun chain => ?_, fun chain _ => (Rooted.run run).latest effect⟩
    · have waits (id : Digest) : call ≠ .executeQueued id := by
        rintro rfl
        exact Bool.false_ne_true (contained.symm.trans paused)
      obtain ⟨quiet, same⟩ := effect.frozen paused waits
      exact ⟨by rw [called, quiet, List.append_nil], same⟩
    · have own (message : CrossChainGovMessage) (proof : BridgeProof) (chainId : UInt32)
          (blockHeight : UInt64) (root : Digest)
          (isRoot : call = .syncStateRoot message proof chainId blockHeight root) :
          chainId = message.sourceChainId ∨ getSyncedStateRoot s.world chainId blockHeight =
            some ⟨chainId, blockHeight, root, host.timestamp⟩ := by
        rw [isRoot] at contained
        exact contained
      rcases effect.origin chain own with same | ⟨message, proof, only, source⟩
      · exact .inl same
      · exact .inr ⟨message, proof, by rw [added, only], source⟩

/-- The calls that make chain `1` trust sender `7` of chain `2`. -/
def trusting (delay : ℕ) : List (Action UInt32 UInt32 UInt32) :=
  [signed 1 (.initializeGovernance 0 1 delay), signed 2 (.setTrustedSender 2 [7] true)]

/-- A state root of a chain, brought by a message of chain `2`. -/
def bringRoot (chainId : UInt32) (sequence : UInt64 := 1) (height : UInt64 := 5) :
    Call UInt32 UInt32 UInt32 :=
  .syncStateRoot ⟨2, 1, sequence, [7], .stateRootSync,
    fixedWidth.stateRoot chainId height ⟨List.replicate 32 6, rfl⟩, 0⟩ ⟨.native, []⟩ chainId height
    ⟨List.replicate 32 6, rfl⟩

theorem own_root_keeps :
    ∃ s s', Run (Step fixedWidth) {} (trusting 10) s ∧
      Step fixedWidth s (signed 3 (bringRoot 2)) s' ∧ Keeps s s' := by
  obtain ⟨s, run, s', step, -⟩ : ∃ s, Run (Step fixedWidth) {} (trusting 10) s ∧
      ∃ s', perform fixedWidth s (signed 3 (bringRoot 2)) = .ok s' ∧
        (messages s'.log).length = 1 :=
    exists_run (fun _ _ _ => id) (by decide +kernel)
  exact ⟨s, s', run, step, (keeps_iff run step).2 (.inl rfl)⟩

def queueCall : Call UInt32 UInt32 UInt32 :=
  .receiveAndExecute ⟨2, 1, 1, [7], .remoteExecution,
    fixedWidth.execution 9 8 [] ⟨List.replicate 32 1, Sha256.length_ones⟩, 0⟩ ⟨.native, []⟩ 9 8 []
    ⟨List.replicate 32 1, Sha256.length_ones⟩

/-- A queued call is made while the contract is paused, and a message of chain `2` writes a state
root of chain `3`. -/
theorem pause_and_origin_broken :
    (∃ s s', Run (Step fixedWidth) {}
        (trusting 10 ++ [signed 3 queueCall, signed 4 (.setPaused true)]) s ∧
      Step fixedWidth s (signed 13 (.executeQueued ⟨List.replicate 32 1, rfl⟩)) s' ∧
      isPaused s.world = true ∧ targetCalls s'.log ≠ targetCalls s.log) ∧
    ∃ s s', Run (Step fixedWidth) {} (trusting 10) s ∧
      Step fixedWidth s (signed 3 (bringRoot 3)) s' ∧ ¬ SameChain s.world s'.world 3 ∧
      (messages s'.log).map (fun accepted => accepted.1.sourceChainId) = [2] := by
  constructor
  · obtain ⟨s, earlier, s', step, paused, calls⟩ : ∃ s,
        (trusting 10 ++ [signed 3 queueCall, signed 4 (.setPaused true)]).foldlM
          (perform fixedWidth) {} = .ok s ∧
        ∃ s', perform fixedWidth s (signed 13 (.executeQueued ⟨List.replicate 32 1, rfl⟩)) =
            .ok s' ∧
          isPaused s.world = true ∧ targetCalls s'.log ≠ targetCalls s.log := by
      decide +kernel
    exact ⟨s, s', Run.of_foldlM (fun _ _ _ => id) earlier, step, paused, calls⟩
  · obtain ⟨s, earlier, s', step, changed, sources⟩ : ∃ s,
        (trusting 10).foldlM (perform fixedWidth) {} = .ok s ∧
        ∃ s', perform fixedWidth s (signed 3 (bringRoot 3)) = .ok s' ∧
          getSyncedStateRoot s'.world 3 5 ≠ getSyncedStateRoot s.world 3 5 ∧
          (messages s'.log).map (fun accepted => accepted.1.sourceChainId) = [2] := by
      decide +kernel
    exact ⟨s, s', Run.of_foldlM (fun _ _ _ => id) earlier, step,
      fun same => changed (same.stateRoot 5), sources⟩

/-- **No rollback**: a chain that has a latest state root has one after every further run, and its
block height is not lower. -/
theorem latest_root_advances {later : List (Action Address Symbol Val)}
    (run : Run (Step codec) {} actions s) (after : Run (Step codec) s later s')
    (found : getLatestStateRoot s.world chain = some record) :
    ∃ record', getLatestStateRoot s'.world chain = some record' ∧
      record.blockHeight ≤ record'.blockHeight := by
  refine (after.invariant (P := fun s₁ => Rooted s₁.world ∧ ∃ record',
    getLatestStateRoot s₁.world chain = some record' ∧ record.blockHeight ≤ record'.blockHeight)
    ⟨Rooted.run run, record, found, UInt64.le_refl _⟩ ?_).2
  rintro _ _ _ ⟨rooted, _, latest, le⟩ step
  obtain ⟨_, -, effect⟩ := step_effect step
  obtain ⟨last, latest', le'⟩ := rooted.latest effect latest
  exact ⟨rooted.effect effect, last, latest', UInt64.le_trans le le'⟩

/-- A root at height `6` and, out of turn, one at height `4` follow the one at height `5`. -/
theorem own_root_stays : ∃ s s' record,
    Run (Step fixedWidth) {} (trusting 10 ++ [signed 3 (bringRoot 2)]) s ∧
      Run (Step fixedWidth) s [signed 4 (bringRoot 2 2 6), signed 5 (bringRoot 2 3 4)] s' ∧
      getLatestStateRoot s'.world 2 = some record ∧ 5 ≤ record.blockHeight := by
  obtain ⟨s, first, s', last, height⟩ : ∃ s,
      (trusting 10 ++ [signed 3 (bringRoot 2)]).foldlM (perform fixedWidth) {} = .ok s ∧
        ∃ s', [signed 4 (bringRoot 2 2 6), signed 5 (bringRoot 2 3 4)].foldlM
            (perform fixedWidth) s = .ok s' ∧
          (getLatestStateRoot s.world 2).map StateRootRecord.blockHeight = some 5 := by
    decide +kernel
  have run : Run (Step fixedWidth) {} _ s := Run.of_foldlM (fun _ _ _ => id) first
  have after : Run (Step fixedWidth) s _ s' := Run.of_foldlM (fun _ _ _ => id) last
  obtain ⟨_, found, five⟩ := Option.map_eq_some_iff.1 height
  obtain ⟨record, latest, le⟩ := latest_root_advances run after found
  exact ⟨s, s', record, run, after, latest, five ▸ le⟩

end CrossChainGovernance
