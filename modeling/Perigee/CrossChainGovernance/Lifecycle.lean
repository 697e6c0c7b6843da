import Perigee.CrossChainGovernance.Messages

/-!
# The life of a remote execution

Every call moves each execution at most once along a small machine (`Move`): it is queued or run
when its message is accepted, and a queued one is executed after its delay or cancelled.  So the
events of an execution over any run are one of four short lists (`Life`).
-/

namespace CrossChainGovernance

open Soroban
open Sha256 (Digest)
open Wire

variable {Address Symbol Val : Type}

/-! ## Events of one execution -/

def Event.execution : Event Address Symbol Val → Option Digest
  | .accepted _ _ => none
  | .received id _ _ _ => some id
  | .invoked id _ => some id
  | .cancelled id => some id

def Event.invocation (id : Digest) :
    Event Address Symbol Val → Option (Invocation Address Symbol Val)
  | .invoked id' invocation => if id' = id then some invocation else none
  | _ => none

def history (id : Digest) (log : List (Event Address Symbol Val)) :
    List (Event Address Symbol Val) :=
  log.filter fun event => event.execution = some id

def invocations (id : Digest) (log : List (Event Address Symbol Val)) :
    List (Invocation Address Symbol Val) :=
  log.filterMap (Event.invocation id)

@[simp] theorem history_append (id : Digest) (log events : List (Event Address Symbol Val)) :
    history id (log ++ events) = history id log ++ history id events :=
  List.filter_append ..

theorem mem_history_iff {id : Digest} {log : List (Event Address Symbol Val)}
    {event : Event Address Symbol Val} :
    event ∈ history id log ↔ event ∈ log ∧ event.execution = some id := by
  simp [history]

theorem invocations_history (id : Digest) (log : List (Event Address Symbol Val)) :
    invocations id (history id log) = invocations id log := by
  rw [invocations, history, List.filterMap_filter]
  refine congrArg (List.filterMap · log) (funext fun event => ?_)
  cases event <;> simp [Event.invocation, Event.execution]

/-! ## Moves -/

/-- What one call does to an execution: the record before, the events and the record after. -/
inductive Move (codec : Codec Address Symbol Val) (id : Digest) :
    Option (RemoteExecutionRecord Address Symbol Val) → List (Event Address Symbol Val) →
      Option (RemoteExecutionRecord Address Symbol Val) → Prop
  | stay {record : Option (RemoteExecutionRecord Address Symbol Val)} :
      Move codec id record [] record
  | queue {record : RemoteExecutionRecord Address Symbol Val} {message : CrossChainGovMessage}
      {time delay : ℕ}
      (payload : message.payload = codec.execution record.target record.function record.args id)
      (status : record.status = .queued)
      (executeAfter : record.executeAfter = min (time + delay) (2 ^ 64 - 1)) :
      Move codec id none [.received id message time delay] (some record)
  | run {record : RemoteExecutionRecord Address Symbol Val} {message : CrossChainGovMessage}
      {time : ℕ}
      (payload : message.payload = codec.execution record.target record.function record.args id)
      (status : record.status = .executed) :
      Move codec id none [.received id message time 0,
        .invoked id ⟨record.target, record.function, record.args, time⟩] (some record)
  | execute {record : RemoteExecutionRecord Address Symbol Val} {time : ℕ}
      (status : record.status = .queued) (ready : record.executeAfter ≤ time) :
      Move codec id (some record)
        [.invoked id ⟨record.target, record.function, record.args, time⟩]
        (some { record with status := .executed, executedAt := time })
  | cancel {record : RemoteExecutionRecord Address Symbol Val} (status : record.status = .queued) :
      Move codec id (some record) [.cancelled id] (some { record with status := .cancelled })

variable {codec : Codec Address Symbol Val} {host : Host Address Symbol Val}
  {w w' : World Address Symbol Val} {call : Call Address Symbol Val}
  {events : List (Event Address Symbol Val)}

theorem Move.of_write (id : Digest) {record : RemoteExecutionRecord Address Symbol Val}
    (moved : Move codec id (w.execution.lookup id) (history id events) (some record))
    (only : ∀ event ∈ events, event.execution = none ∨ event.execution = some id) (id' : Digest) :
    Move codec id' (w.execution.lookup id') (history id' events)
      ((w.execution.set id record).lookup id') := by
  rw [Store.lookup_set]
  split_ifs with same
  · rw [same]
    exact moved
  · have none : history id' events = [] := by
      rw [history, List.filter_eq_nil_iff]
      intro event member
      rcases only event member with about | about <;> simp [about, Ne.symm same]
    rw [none]
    exact .stay

theorem Effect.move [DecidableEq Address] [DecidableEq Symbol]
    (effect : Effect codec host w call events w') (id : Digest) :
    Move codec id (w.execution.lookup id) (history id events) (w'.execution.lookup id) := by
  cases effect with
  | settings _ settings =>
    rw [settings]
    exact .stay
  | @queued _ _ _ _ _ executionId payload _ absent =>
    refine Move.of_write executionId ?_ (by simp [Event.execution]) id
    rw [absent]
    simpa [history, Event.execution] using .queue payload rfl rfl
  | @executed message _ target function args executionId payload _ absent immediate =>
    refine Move.of_write executionId ?_ (by simp [Event.execution]) id
    rw [absent, immediate]
    have moved := @Move.run _ _ _ codec executionId
      ⟨executionId, message.sourceChainId, message.sender, target, function, args, .executed,
        host.timestamp, host.timestamp, host.timestamp⟩ message host.timestamp payload rfl
    simpa [history, Event.execution] using moved
  | @executeQueued executionId _ stored waiting ready =>
    refine Move.of_write executionId ?_ (by simp [Event.execution]) id
    rw [stored]
    simpa [history, Event.execution] using .execute waiting ready
  | @cancelQueued executionId _ stored waiting =>
    refine Move.of_write executionId ?_ (by simp [Event.execution]) id
    rw [stored]
    simpa [history, Event.execution] using .cancel waiting
  | proposal | votingPower | parameter | stateRoot => exact .stay

/-! ## Lives -/

/-- The record of an execution and its events so far. -/
inductive Life (codec : Codec Address Symbol Val) (id : Digest) :
    Option (RemoteExecutionRecord Address Symbol Val) → List (Event Address Symbol Val) → Prop
  | absent : Life codec id none []
  | queued {record : RemoteExecutionRecord Address Symbol Val} {message : CrossChainGovMessage}
      {time delay : ℕ}
      (payload : message.payload = codec.execution record.target record.function record.args id)
      (status : record.status = .queued)
      (executeAfter : record.executeAfter = min (time + delay) (2 ^ 64 - 1)) :
      Life codec id (some record) [.received id message time delay]
  | executed {record : RemoteExecutionRecord Address Symbol Val} {message : CrossChainGovMessage}
      {time delay later : ℕ}
      (payload : message.payload = codec.execution record.target record.function record.args id)
      (status : record.status = .executed) (waited : min (time + delay) (2 ^ 64 - 1) ≤ later) :
      Life codec id (some record) [.received id message time delay,
        .invoked id ⟨record.target, record.function, record.args, later⟩]
  | cancelled {record : RemoteExecutionRecord Address Symbol Val} {message : CrossChainGovMessage}
      {time delay : ℕ} (status : record.status = .cancelled) :
      Life codec id (some record) [.received id message time delay, .cancelled id]

theorem Life.move {id : Digest} {record record' : Option (RemoteExecutionRecord Address Symbol Val)}
    {past : List (Event Address Symbol Val)} (life : Life codec id record past)
    (move : Move codec id record events record') : Life codec id record' (past ++ events) := by
  cases move with
  | stay =>
    rw [List.append_nil]
    exact life
  | queue payload status executeAfter =>
    cases life with
    | absent => exact .queued payload status executeAfter
  | run payload status =>
    cases life with
    | absent => exact .executed payload status (min_le_left _ _)
  | execute waiting ready =>
    cases life with
    | queued payload _ executeAfter =>
      exact .executed payload rfl (executeAfter ▸ ready)
    | executed _ status | cancelled status => exact absurd (status.symm.trans waiting) (by decide)
  | cancel waiting =>
    cases life with
    | queued => exact .cancelled rfl
    | executed _ status | cancelled status => exact absurd (status.symm.trans waiting) (by decide)

section Past

variable {id : Digest} {record : Option (RemoteExecutionRecord Address Symbol Val)}
  {past before after : List (Event Address Symbol Val)}

theorem Life.once (life : Life codec id record past) : (invocations id past).length ≤ 1 := by
  cases life <;> simp [invocations, Event.invocation, List.filterMap_cons]

theorem Life.final (life : Life codec id record past) (cancelled : .cancelled id ∈ past) :
    invocations id past = [] := by
  cases life <;> simp_all [invocations, Event.invocation]

/-- A call comes after the message that asked for it, and after its delay. -/
theorem Life.earned {invocation : Invocation Address Symbol Val} (life : Life codec id record past)
    (split : past = before ++ .invoked id invocation :: after) :
    ∃ message time delay, .received id message time delay ∈ before ∧
      message.payload =
        codec.execution invocation.target invocation.function invocation.args id ∧
      min (time + delay) (2 ^ 64 - 1) ≤ invocation.time := by
  rcases before with _ | ⟨_, rest⟩
  · cases life <;> simp at split
  · cases life with
    | absent | queued => simp at split
    | @executed _ message time delay _ payload _ waited =>
      obtain ⟨rfl, split⟩ := List.cons.inj split
      rcases rest with _ | ⟨second, rest⟩
      · obtain ⟨rfl, -⟩ := by simpa using split
        exact ⟨message, time, delay, List.mem_cons_self, payload, waited⟩
      · simp at split
    | cancelled =>
      rcases rest with _ | ⟨second, rest⟩ <;> simp at split

end Past

variable {s s' : Traced Address Symbol Val} {actions : List (Action Address Symbol Val)}
  {message : CrossChainGovMessage} {time delay : ℕ}

theorem Life.run [DecidableEq Address] [DecidableEq Symbol] (run : Run (Step codec) {} actions s)
    (id : Digest) : Life codec id (s.world.execution.lookup id) (history id s.log) := by
  refine run.invariant (P := fun s => Life codec id (s.world.execution.lookup id)
    (history id s.log)) .absent fun _ _ _ life step => ?_
  obtain ⟨_, log, effect⟩ := step_effect step
  rw [log, history_append]
  exact life.move (effect.move id)

theorem Effect.received_accepted [DecidableEq Address] [DecidableEq Symbol]
    (effect : Effect codec host w call events w') {id : Digest}
    (member : .received id message time delay ∈ events) :
    ∃ proof, (message, proof) ∈ messages events := by
  cases effect <;> simp_all [messages, Event.message]

theorem received_accepted [DecidableEq Address] [DecidableEq Symbol]
    (run : Run (Step codec) {} actions s) {id : Digest}
    (member : .received id message time delay ∈ s.log) :
    ∃ proof, (message, proof) ∈ messages s.log := by
  refine run.invariant (P := fun s => .received id message time delay ∈ s.log →
    ∃ proof, (message, proof) ∈ messages s.log) (fun member => absurd member List.not_mem_nil)
    (fun _ _ _ before step member => ?_) member
  obtain ⟨_, log, effect⟩ := step_effect step
  rw [log, List.mem_append] at member
  rw [log, messages_append]
  rcases member with old | new
  · obtain ⟨proof, found⟩ := before old
    exact ⟨proof, List.mem_append_left _ found⟩
  · obtain ⟨proof, found⟩ := effect.received_accepted new
    exact ⟨proof, List.mem_append_right _ found⟩

/-! ## Every run -/

structure Lawful (codec : Codec Address Symbol Val) (log : List (Event Address Symbol Val)) :
    Prop where
  /-- An execution calls its target at most once. -/
  once : ∀ id, (invocations id log).length ≤ 1
  /-- The call is the one that an accepted message asked for, after the delay that was in force. -/
  earned : ∀ id invocation before after, log = before ++ .invoked id invocation :: after →
    ∃ message proof time delay, (message, proof) ∈ messages log ∧
      .received id message time delay ∈ before ∧
      message.payload =
        codec.execution invocation.target invocation.function invocation.args id ∧
      min (time + delay) (2 ^ 64 - 1) ≤ invocation.time
  /-- A cancelled execution calls nothing. -/
  final : ∀ id, .cancelled id ∈ log → invocations id log = []
  /-- The sequence numbers of the messages of a chain increase. -/
  increasing : (messages log).Pairwise fun first second =>
    first.1.sourceChainId = second.1.sourceChainId → first.1.sequence < second.1.sequence
  /-- No message is accepted twice, under whatever proof. -/
  fresh : ((messages log).map Prod.fst).Nodup

/-- Over every run, each execution calls its target at most once, as an accepted message asked and
when its delay is over, and never after a cancellation; accepted messages have increasing sequence
numbers. -/
theorem execution_lifecycle [DecidableEq Address] [DecidableEq Symbol]
    (run : Run (Step codec) {} actions s) : Lawful codec s.log where
  once id := by
    rw [← invocations_history]
    exact (Life.run run id).once
  earned id invocation before after log := by
    have split : history id s.log =
        history id before ++ .invoked id invocation :: history id after := by
      rw [log]
      simp [history, Event.execution]
    obtain ⟨message, time, delay, member, payload, waited⟩ := (Life.run run id).earned split
    have received : .received id message time delay ∈ before := (mem_history_iff.1 member).1
    obtain ⟨proof, accepted⟩ := received_accepted run (log ▸ List.mem_append_left _ received)
    exact ⟨message, proof, time, delay, accepted, received, payload, waited⟩
  final id cancelled := by
    rw [← invocations_history]
    exact (Life.run run id).final (mem_history_iff.2 ⟨cancelled, rfl⟩)
  increasing := (Sequenced.run run).increasing
  fresh := by
    rw [List.Nodup, List.pairwise_map]
    refine (Sequenced.run run).increasing.imp fun newer same => ?_
    rw [same] at newer
    exact UInt64.lt_irrefl _ (newer rfl)

def sampleId : Digest := ⟨List.replicate 32 1, Sha256.length_ones⟩

/-- A message that asks for the call of function `8` of contract `9` with argument `5`. -/
def sampleMessage : CrossChainGovMessage :=
  ⟨2, 1, 1, [7], .remoteExecution, fixedWidth.execution 9 8 [5] sampleId, 0⟩

/-- The message is accepted at a time, under a delay, and executed later. -/
def delayedExecution (delay time later : ℕ) : List (Action UInt32 UInt32 UInt32) :=
  [signed 0 (.initializeGovernance 0 1 delay), signed 0 (.setTrustedSender 2 [7] true),
    signed time (.receiveAndExecute sampleMessage ⟨.native, []⟩ 9 8 [5] sampleId),
    signed later (.executeQueued sampleId)]

def delayedEvents (delay time later : ℕ) : List (Event UInt32 UInt32 UInt32) :=
  [.accepted sampleMessage ⟨.native, []⟩, .received sampleId sampleMessage time delay,
    .invoked sampleId ⟨9, 8, [5], later⟩]

theorem delayedExecution_lawful :
    ∃ s, Run (Step fixedWidth) {} (delayedExecution 10 100 110) s ∧
      s.log = delayedEvents 10 100 110 ∧ Lawful fixedWidth s.log := by
  obtain ⟨s, run, log⟩ : ∃ s, Run (Step fixedWidth) {} (delayedExecution 10 100 110) s ∧
      s.log = delayedEvents 10 100 110 :=
    exists_run (fun _ _ _ => id) (by decide +kernel)
  exact ⟨s, run, log, execution_lifecycle run⟩

/-- With the largest delay, a message that is accepted at `1` is executed at the last time there is,
one unit before its delay is over. -/
theorem saturated_delay_ends_early :
    ∃ s : Timed (Traced UInt32 UInt32 UInt32),
      Run (Timed.Step Action.time (Step fixedWidth)) ⟨{}, 0⟩
        (delayedExecution (2 ^ 64 - 1) 1 (2 ^ 64 - 1)) s ∧
      .received sampleId sampleMessage 1 (2 ^ 64 - 1) ∈ s.state.log ∧
      .invoked sampleId ⟨9, 8, [5], 2 ^ 64 - 1⟩ ∈ s.state.log ∧
      2 ^ 64 - 1 < 1 + (2 ^ 64 - 1) := by
  obtain ⟨s, run, log⟩ : ∃ s : Timed (Traced UInt32 UInt32 UInt32),
      Run (Timed.Step Action.time (Step fixedWidth)) ⟨{}, 0⟩
        (delayedExecution (2 ^ 64 - 1) 1 (2 ^ 64 - 1)) s ∧
      s.state.log = delayedEvents (2 ^ 64 - 1) 1 (2 ^ 64 - 1) :=
    exists_run (fun _ _ _ => Timed.perform_step fun _ _ _ => id) (by decide +kernel)
  exact ⟨s, run, by simp [log, delayedEvents], by simp [log, delayedEvents], by decide⟩

end CrossChainGovernance
