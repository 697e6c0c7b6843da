import Perigee.CrossChainGovernance.Effects

/-!
# Accepted messages

The five entry points that take a message accept it in one place.  Over every run the hashes on
record are those of accepted messages, and the sequence numbers of the accepted messages of a chain
increase.
-/

namespace CrossChainGovernance

open Soroban
open Sha256 (Digest)
open Wire

variable {Address Symbol Val : Type}

def Event.message : Event Address Symbol Val → Option (CrossChainGovMessage × BridgeProof)
  | .accepted message proof => some (message, proof)
  | _ => none

/-- The accepted messages with their proofs, in the order of acceptance. -/
def messages (log : List (Event Address Symbol Val)) : List (CrossChainGovMessage × BridgeProof) :=
  log.filterMap Event.message

@[simp] theorem messages_append (log events : List (Event Address Symbol Val)) :
    messages (log ++ events) = messages log ++ messages events :=
  List.filterMap_append

def Call.Inbound : Call Address Symbol Val → Prop
  | .receiveAndExecute .. | .syncProposalState .. | .syncVotingPower .. | .syncParameter ..
  | .syncStateRoot .. => True
  | _ => False

variable {codec : Codec Address Symbol Val} {host : Host Address Symbol Val}
  {w w' : World Address Symbol Val} {call : Call Address Symbol Val}
  {events : List (Event Address Symbol Val)}

/-- A message is accepted: it passes, and the records of messages are those after it. -/
structure Accepts (codec : Codec Address Symbol Val) (w w' : World Address Symbol Val)
    (message : CrossChainGovMessage) (proof : BridgeProof) : Prop where
  passes : ∃ action, Passes codec w message proof action
  processed : w'.processedMessage = (recorded codec message proof w).processedMessage
  sequence : w'.inboundSequence = (recorded codec message proof w).inboundSequence

/-- The call accepts one message, or none and leaves the records of messages alone. -/
theorem Effect.accepts [DecidableEq Address] [DecidableEq Symbol]
    (effect : Effect codec host w call events w') :
    (∃ message proof, messages events = [(message, proof)] ∧
        Accepts codec w w' message proof) ∨
      (¬ call.Inbound ∧ messages events = [] ∧ w'.processedMessage = w.processedMessage ∧
        w'.inboundSequence = w.inboundSequence) := by
  cases effect with
  | settings administers settings =>
    rw [settings]
    refine .inr ⟨fun inbound => ?_, rfl, rfl, rfl⟩
    cases call <;> first | exact administers | exact inbound
  | queued _ passes | executed _ passes => exact .inl ⟨_, _, rfl, ⟨_, passes⟩, rfl, rfl⟩
  | executeQueued | cancelQueued => exact .inr ⟨id, rfl, rfl, rfl⟩
  | proposal passes | votingPower passes | parameter passes | stateRoot passes =>
    exact .inl ⟨_, _, rfl, ⟨_, passes⟩, rfl, rfl⟩

/-! ## Records of messages -/

/-- What the storage keeps of the accepted messages. -/
structure Sequenced (codec : Codec Address Symbol Val) (s : Traced Address Symbol Val) : Prop where
  processed : ∀ hash, isMessageProcessed s.world hash = true →
    ∃ accepted ∈ messages s.log, hashBridgeMessage codec.sha256 accepted.1 accepted.2 = hash
  bounded : ∀ accepted ∈ messages s.log,
    accepted.1.sequence ≤ getInboundSequence s.world accepted.1.sourceChainId
  increasing : (messages s.log).Pairwise fun first second =>
    first.1.sourceChainId = second.1.sourceChainId → first.1.sequence < second.1.sequence

variable {s s' : Traced Address Symbol Val} {actions : List (Action Address Symbol Val)}
  {message : CrossChainGovMessage} {proof : BridgeProof}

theorem Sequenced.empty : Sequenced codec {} where
  processed _ found := absurd found Bool.false_ne_true
  bounded _ member := absurd member List.not_mem_nil
  increasing := .nil


theorem Accepts.getInboundSequence_eq (accepts : Accepts codec w w' message proof)
    (chain : UInt32) :
    getInboundSequence w' chain =
      if chain = message.sourceChainId then message.sequence else getInboundSequence w chain := by
  rw [getInboundSequence, accepts.sequence]
  exact Store.getD_set ..

/-- An accepted message is newer than every one of its chain before. -/
theorem Accepts.getInboundSequence_le (accepts : Accepts codec w w' message proof)
    (chain : UInt32) :
    getInboundSequence w chain ≤ getInboundSequence w' chain := by
  obtain ⟨_, passes⟩ := accepts.passes
  rw [accepts.getInboundSequence_eq]
  split_ifs with same
  · rw [same]
    exact UInt64.le_of_lt passes.newer
  · exact UInt64.le_refl _

theorem Sequenced.step [DecidableEq Address] [DecidableEq Symbol]
    {action : Action Address Symbol Val} (sequenced : Sequenced codec s)
    (step : Step codec s action s') : Sequenced codec s' := by
  obtain ⟨_, log, effect⟩ := step_effect step
  rcases effect.accepts with ⟨message, proof, new, accepts⟩ | ⟨-, none, processed, sequence⟩
  · have all : messages s'.log = messages s.log ++ [(message, proof)] := by
      rw [log, messages_append, new]
    obtain ⟨_, passes⟩ := accepts.passes
    refine ⟨fun hash found => ?_, fun accepted member => ?_, ?_⟩
    · rw [isMessageProcessed, accepts.processed] at found
      rcases (Store.has_set_iff ..).1 found with rfl | before
      · exact ⟨(message, proof), by simp [all], rfl⟩
      · obtain ⟨accepted, member, same⟩ := sequenced.processed hash before
        exact ⟨accepted, by simp [all, member], same⟩
    · rw [all, List.mem_append, List.mem_singleton] at member
      rcases member with before | rfl
      · exact UInt64.le_trans (sequenced.bounded accepted before)
          (accepts.getInboundSequence_le _)
      · rw [accepts.getInboundSequence_eq, if_pos rfl]
        exact UInt64.le_refl _
    · rw [all, List.pairwise_append]
      refine ⟨sequenced.increasing, List.pairwise_singleton _ _,
        fun accepted before _ isLast => ?_⟩
      obtain rfl := List.mem_singleton.1 isLast
      intro same
      have bound := sequenced.bounded accepted before
      rw [same] at bound
      exact UInt64.lt_of_le_of_lt bound passes.newer
  · have all : messages s'.log = messages s.log := by
      rw [log, messages_append, none, List.append_nil]
    refine ⟨fun hash found => ?_, fun accepted member => ?_, ?_⟩
    · rw [isMessageProcessed, processed] at found
      rw [all]
      exact sequenced.processed hash found
    · rw [all] at member
      rw [getInboundSequence, sequence]
      exact sequenced.bounded accepted member
    · rw [all]
      exact sequenced.increasing

theorem Sequenced.run [DecidableEq Address] [DecidableEq Symbol]
    (run : Run (Step codec) {} actions s) : Sequenced codec s :=
  run.invariant .empty fun _ _ _ sequenced step => sequenced.step step

end CrossChainGovernance
