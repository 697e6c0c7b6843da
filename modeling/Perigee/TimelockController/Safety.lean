import Perigee.TimelockController.Lifecycle

/-!
# The timelock holds across nested calls

The controller runs on the machine of nested calls: the target of an execution may call the
controller again in any way, and calls that fail are undone with everything below them.  The records
of the controller follow the lives of the calls in the log of events that were not undone
(`Follows`), also while executions are in progress.
-/

namespace TimelockController

open Soroban

variable {Address Val Id : Type}

/-- What the record of a call looks like in each phase of its life. -/
inductive Matches : Phase → Option (Operation Address Val Id) → Prop
  | unknown : Matches .unknown none
  | pending {operation : Operation Address Val Id} {time delay : ℕ}
      (status : operation.status = .pending) (queued : operation.queuedAt = time)
      (ready : operation.readyAt = time + delay) : Matches (.pending time delay) (some operation)
  | canceled {operation : Operation Address Val Id} (status : operation.status = .canceled) :
      Matches .canceled (some operation)
  | invoked {operation : Operation Address Val Id}
      (status : operation.status = .executing ∨ operation.status = .done) :
      Matches .invoked (some operation)

section Matches

variable {phase : Phase} {operation : Operation Address Val Id}

theorem Matches.pending_of (h : Matches phase (some operation))
    (status : operation.status = .pending) :
    ∃ time delay, phase = .pending time delay ∧ operation.readyAt = time + delay := by
  cases h with
  | pending _ _ ready => exact ⟨_, _, rfl, ready⟩
  | canceled other | invoked other => simp [status] at other

theorem Matches.canceled_of (h : Matches phase (some operation))
    (status : operation.status = .canceled) : phase = .canceled := by
  cases h with
  | pending other => simp [status] at other
  | canceled => rfl
  | invoked other => simp [status] at other

theorem Matches.invoked_of (h : Matches phase (some operation))
    (status : operation.status = .executing) : phase = .invoked := by
  cases h with
  | pending other | canceled other => simp [status] at other
  | invoked => rfl

end Matches

/-! ## Runs -/

structure Traced (Address Val Id : Type) where
  world : World Address Val Id := {}
  log : List (Event Address Val) := []

inductive Request (Address Val Id : Type) where
  | initializeController (admin proposer executor canceller : Address) (minDelay : ℕ)
  | queue (proposer : Address) (call : Invocation Address Val)
  | cancel (canceller : Address) (id : Id)
  | setMinDelay (admin : Address) (minDelay : ℕ)
  | setRoles (admin proposer executor canceller : Address)
  | transferAdmin (admin newAdmin : Address)

variable [DecidableEq Id]

section Runs

variable [DecidableEq Address]

def World.delay (w : World Address Val Id) : ℕ := w.config.elim 0 ControllerConfig.minDelay

def serve (operationId : Invocation Address Val → Id) (host : Host Address)
    (t : Traced Address Val Id) :
    Request Address Val Id → Outcome Error (Traced Address Val Id)
  | .initializeController admin proposer executor canceller minDelay => do
    let world ← initializeController host admin proposer executor canceller minDelay t.world
    pure { t with world }
  | .queue proposer call => do
    let (_, world) ← queue operationId host proposer call t.world
    pure { world, log := t.log ++ [.queued call host.timestamp t.world.delay] }
  | .cancel canceller id => do
    let (operation, world) ← cancel host canceller id t.world
    pure { world, log := t.log ++ [.canceled operation.toInvocation] }
  | .setMinDelay admin minDelay => do
    let world ← setMinDelay host admin minDelay t.world
    pure { t with world }
  | .setRoles admin proposer executor canceller => do
    let world ← setRoles host admin proposer executor canceller t.world
    pure { t with world }
  | .transferAdmin admin newAdmin => do
    let world ← transferAdmin host admin newAdmin t.world
    pure { t with world }

/-- Run `execute` up to the call of its target, and record the call. -/
def invoke (host : Host Address) (executor : Address) (id : Id) (t : Traced Address Val Id) :
    Outcome Error (Operation Address Val Id × Traced Address Val Id) := do
  let (operation, world) ← execute host executor id t.world
  pure (operation, { world, log := t.log ++ [.invoked operation.toInvocation host.timestamp] })

abbrev State (Address Val Id : Type) := Machine (Traced Address Val Id) (Operation Address Val Id)

/-- A request, or an execution, with what the host says about it. -/
abbrev Action (Address Val Id : Type) :=
  Machine.Label (Host Address × Request Address Val Id) (Host Address × Address × Id)

/-- The controller on the machine of nested calls. -/
def Step (operationId : Invocation Address Val → Id) :
    State Address Val Id → Action Address Val Id → State Address Val Id → Prop :=
  Machine.Step (fun request t t' => serve operationId request.1 t request.2 = .ok t')
    (fun execution t operation t' =>
      invoke execution.1 execution.2.1 execution.2.2 t = .ok (operation, t'))
    (fun operation t => { t with world := finishExecute operation t.world })

end Runs

/-! ## What a request does -/

section Effects

variable {operationId : Invocation Address Val → Id} {host : Host Address}
  {t t' : Traced Address Val Id} {operation : Operation Address Val Id}

def queuedOperation (operationId : Invocation Address Val → Id) (proposer : Address)
    (call : Invocation Address Val) (time delay : ℕ) : Operation Address Val Id :=
  { call with
    id := operationId call
    proposer
    queuedAt := time
    readyAt := time + delay
    status := .pending }

inductive Effect (operationId : Invocation Address Val → Id) (t : Traced Address Val Id) :
    Traced Address Val Id → Prop
  | settings {t' : Traced Address Val Id} (records : t'.world.operations = t.world.operations)
      (log : t'.log = t.log) : Effect operationId t t'
  | queued {t' : Traced Address Val Id} (proposer : Address) (call : Invocation Address Val)
      (time delay : ℕ)
      (free : ∀ existing ∈ t.world.operations.lookup (operationId call),
        existing.status = .canceled)
      (records : t'.world.operations = t.world.operations.set (operationId call)
        (queuedOperation operationId proposer call time delay))
      (log : t'.log = t.log ++ [.queued call time delay]) : Effect operationId t t'
  | canceled {t' : Traced Address Val Id} (id : Id) (operation : Operation Address Val Id)
      (stored : t.world.operations.lookup id = some operation)
      (pending : operation.status = .pending)
      (records : t'.world.operations = t.world.operations.set operation.id
        { operation with status := .canceled })
      (log : t'.log = t.log ++ [.canceled operation.toInvocation]) : Effect operationId t t'

theorem serve_effect [DecidableEq Address] {request : Request Address Val Id}
    (served : serve operationId host t request = .ok t') : Effect operationId t t' := by
  cases request with
  | initializeController | setMinDelay =>
    simp only [serve, initializeController, setMinDelay, ok_iff] at served
    obtain ⟨_, ⟨_, -, _, -, _, -, rfl⟩, rfl⟩ := served
    exact .settings rfl rfl
  | setRoles | transferAdmin =>
    simp only [serve, setRoles, transferAdmin, ok_iff] at served
    obtain ⟨_, ⟨_, -, _, -, rfl⟩, rfl⟩ := served
    exact .settings rfl rfl
  | queue proposer call =>
    simp only [serve, queue, loadConfig, checkedU64, ok_iff] at served
    obtain ⟨_, ⟨_, stored, _, -, _, ready, _, free, rfl⟩, rfl⟩ := served
    split_ifs at ready
    obtain rfl := Except.ok.inj ready
    refine .queued proposer call host.timestamp t.world.delay ?_ ?_ rfl
    · exact fun existing mem => not_not.1 fun active => free ⟨existing, mem, active⟩
    · simp only [World.delay, stored]
      rfl
  | cancel _ id =>
    simp only [serve, cancel, loadOperation, ok_iff] at served
    obtain ⟨_, ⟨_, -, _, -, operation, stored, _, pending, rfl⟩, rfl⟩ := served
    exact .canceled id operation stored (not_not.1 pending) rfl rfl

theorem invoke_ok [DecidableEq Address] {executor : Address} {id : Id}
    (invoked : invoke host executor id t = .ok (operation, t')) :
    ∃ stored, t.world.operations.lookup id = some stored ∧ stored.status = .pending ∧
      stored.readyAt ≤ host.timestamp ∧ operation = { stored with status := .executing } ∧
      t'.world.operations = t.world.operations.set stored.id operation ∧
      t'.log = t.log ++ [.invoked stored.toInvocation host.timestamp] := by
  simp only [invoke, execute, loadOperation, ok_iff] at invoked
  obtain ⟨_, ⟨_, -, _, -, stored, found, _, pending, _, ready, rfl⟩, rfl, rfl⟩ := invoked
  exact ⟨stored, found, not_not.1 pending, not_lt.1 ready, rfl, rfl, rfl⟩

end Effects

/-! ## Records and lives -/

/-- Every record is kept under the id of its call and follows the call's life in the log, and the
operations in progress are recorded as executing. -/
structure Follows (operationId : Invocation Address Val → Id)
    (running : List (Operation Address Val Id)) (t : Traced Address Val Id) : Prop where
  keyed : ∀ id operation, t.world.operations.lookup id = some operation →
    operation.id = id ∧ operationId operation.toInvocation = id
  lived : ∀ c, ∃ phase, Lived c t.log phase ∧
    Matches phase (t.world.operations.lookup (operationId c))
  executing : ∀ r ∈ running, t.world.operations.lookup r.id = some r ∧ r.status = .executing
  distinct : running.Pairwise fun r r' => r.id ≠ r'.id

theorem Lived.others {c : Invocation Address Val} {log events : List (Event Address Val)}
    {phase : Phase} (lived : Lived c log phase) (foreign : ∀ e ∈ events, e.call ≠ c) :
    Lived c (log ++ events) phase := by
  induction events generalizing log with
  | nil => simpa using lived
  | cons _ _ ih =>
    obtain ⟨first, rest⟩ := List.forall_mem_cons.1 foreign
    simpa using ih (lived.other first) rest

section Follows

variable {operationId : Invocation Address Val → Id} (injective : Function.Injective operationId)
  {t t' : Traced Address Val Id} {running : List (Operation Address Val Id)}
  {operation : Operation Address Val Id}

theorem Follows.update (injective : Function.Injective operationId)
    (follows : Follows operationId running t) (operation : Operation Address Val Id)
    (events : List (Event Address Val)) (key : operationId operation.toInvocation = operation.id)
    (own : ∀ e ∈ events, e.call = operation.toInvocation)
    (records : t'.world.operations = t.world.operations.set operation.id operation)
    (log : t'.log = t.log ++ events)
    (now : ∃ phase, Lived operation.toInvocation (t.log ++ events) phase ∧
      Matches phase (some operation))
    (apart : ∀ r ∈ running, r.id ≠ operation.id) : Follows operationId running t' := by
  refine ⟨?_, fun c => ?_, fun r mem => ?_, follows.distinct⟩
  · rw [records]
    exact Store.forall_set follows.keyed ⟨rfl, key⟩
  · rw [records, log]
    by_cases same : c = operation.toInvocation
    · rw [same, key, Store.lookup_set_self]
      exact now
    · have other : operationId c ≠ operation.id := fun eq => same (injective (eq.trans key.symm))
      obtain ⟨phase, lived, _⟩ := follows.lived c
      refine ⟨phase, lived.others fun e mem eq => same (eq.symm.trans (own e mem)), ?_⟩
      rwa [Store.lookup_set_of_ne _ _ other]
  · rw [records, Store.lookup_set_of_ne _ _ (apart r mem)]
    exact follows.executing r mem

/-- An operation in progress is stored, so it is not under an id with another status. -/
theorem Follows.id_ne (follows : Follows operationId running t) {id : Id}
    (other : ∀ stored ∈ t.world.operations.lookup id, stored.status ≠ .executing) :
    ∀ r ∈ running, r.id ≠ id := by
  rintro r mem rfl
  obtain ⟨stored, status⟩ := follows.executing r mem
  exact other r stored status

theorem Follows.id_ne_of_pending (follows : Follows operationId running t)
    (stored : t.world.operations.lookup operation.id = some operation)
    (pending : operation.status = .pending) : ∀ r ∈ running, r.id ≠ operation.id :=
  follows.id_ne fun _ found => by simp [← Option.mem_unique stored found, pending]

include injective

theorem Follows.serve (follows : Follows operationId running t) (effect : Effect operationId t t') :
    Follows operationId running t' := by
  cases effect with
  | settings records log =>
    obtain ⟨keyed, lived, _, distinct⟩ := follows
    rw [← records] at keyed
    refine ⟨keyed, ?_, ?_, distinct⟩
    · rwa [records, log]
    · rwa [records]
  | queued proposer call time delay free records log =>
    refine follows.update injective (queuedOperation operationId proposer call time delay)
      [.queued call time delay] rfl (by simp [Event.call, queuedOperation]) records log ?_
      (follows.id_ne fun stored found => by simp [free stored found])
    obtain ⟨phase, lived, record⟩ := follows.lived call
    refine ⟨.pending time delay, .queued time delay lived ?_, .pending rfl rfl rfl⟩
    rcases existing : t.world.operations.lookup (operationId call) with _ | operation
    · rw [existing] at record
      cases record
      exact .inl rfl
    · rw [existing] at record
      exact .inr (record.canceled_of (free operation existing))
  | canceled id operation stored pending records log =>
    obtain ⟨rfl, key⟩ := follows.keyed id operation stored
    have apart := follows.id_ne_of_pending stored pending
    refine follows.update injective { operation with status := .canceled }
      [.canceled operation.toInvocation] key (by simp [Event.call]) records log ?_ apart
    obtain ⟨phase, lived, record⟩ := follows.lived operation.toInvocation
    rw [key, stored] at record
    obtain ⟨_, _, rfl, -⟩ := record.pending_of pending
    exact ⟨.canceled, lived.canceled, .canceled rfl⟩

theorem Follows.invoke [DecidableEq Address] (follows : Follows operationId running t)
    {host : Host Address} {executor : Address} {id : Id}
    (invoked : invoke host executor id t = .ok (operation, t')) :
    Follows operationId (operation :: running) t' := by
  obtain ⟨stored, found, pending, ready, rfl, records, log⟩ := invoke_ok invoked
  obtain ⟨rfl, key⟩ := follows.keyed id stored found
  have apart := follows.id_ne_of_pending found pending
  obtain ⟨keyed, lived, executing, distinct⟩ : Follows operationId running t' := by
    refine follows.update injective { stored with status := .executing }
      [.invoked stored.toInvocation host.timestamp] key (by simp [Event.call]) records log ?_ apart
    obtain ⟨_, lived, record⟩ := follows.lived stored.toInvocation
    rw [key, found] at record
    obtain ⟨_, _, rfl, eq⟩ := record.pending_of pending
    exact ⟨.invoked, lived.invoked (eq ▸ ready), .invoked (.inl rfl)⟩
  refine ⟨keyed, lived, List.forall_mem_cons.2 ⟨⟨?_, rfl⟩, executing⟩,
    List.pairwise_cons.2 ⟨fun r mem => (apart r mem).symm, distinct⟩⟩
  rw [records]
  exact Store.lookup_set_self ..

theorem Follows.finish (follows : Follows operationId (operation :: running) t) :
    Follows operationId running { t with world := finishExecute operation t.world } := by
  obtain ⟨found, status⟩ := follows.executing operation List.mem_cons_self
  obtain ⟨-, key⟩ := follows.keyed _ _ found
  obtain ⟨apart, distinct⟩ := List.pairwise_cons.1 follows.distinct
  have rest : Follows operationId running t :=
    ⟨follows.keyed, follows.lived, fun r mem => follows.executing r (List.mem_cons_of_mem _ mem),
      distinct⟩
  refine rest.update injective { operation with status := .done } [] key nofun rfl
    (List.append_nil _).symm ?_ fun r mem => (apart r mem).symm
  obtain ⟨_, lived, record⟩ := follows.lived operation.toInvocation
  rw [key, found] at record
  obtain rfl := record.invoked_of status
  exact ⟨.invoked, by simpa using lived, .invoked (.inr rfl)⟩

end Follows

/-! ## Safety -/

section Safety

variable {operationId : Invocation Address Val → Id} (injective : Function.Injective operationId)
  {executing : Operation Address Val Id}

def Initial (s : State Address Val Id) : Prop := s = ⟨{}, []⟩

theorem follows_initial : Follows operationId [] ({} : Traced Address Val Id) where
  keyed _ _ found := by simp at found
  lived _ := ⟨.unknown, .nil, by simpa using Matches.unknown⟩
  executing := nofun
  distinct := .nil

theorem follows_of_reachable [DecidableEq Address] (injective : Function.Injective operationId)
    {s : State Address Val Id} (reach : Reachable Initial (Step operationId) s) :
    Machine.Holds (Follows operationId) s.world s.frames := by
  refine reach.invariant (P := fun s => Machine.Holds (Follows operationId) s.world s.frames) ?_ ?_
  · rintro _ rfl
    exact .nil follows_initial
  · intro s _ _ holds step
    refine Machine.Step.invariant (Follows operationId) ?_ ?_ ?_ holds step
    · exact fun _ _ _ _ follows served => follows.serve injective (serve_effect served)
    · exact fun _ _ _ _ _ follows invoked => follows.invoke injective invoked
    · exact fun _ _ _ follows => follows.finish injective

/-- The record under `id` is `operation`, which is not in progress, and since `log` no call with
this id was invoked. -/
structure Closed (operationId : Invocation Address Val → Id) (id : Id)
    (operation : Operation Address Val Id) (log : List (Event Address Val))
    (running : List (Operation Address Val Id)) (t : Traced Address Val Id) : Prop where
  follows : Follows operationId running t
  stored : t.world.operations.lookup id = some operation
  apart : ∀ r ∈ running, r.id ≠ id
  later : ∃ events, t.log = log ++ events ∧
    ∀ call time, .invoked call time ∈ events → operationId call ≠ id

variable {id : Id} {operation : Operation Address Val Id} {log : List (Event Address Val)}
  {running : List (Operation Address Val Id)} {t t' : Traced Address Val Id}

theorem Closed.update (closed : Closed operationId id operation log running t)
    {running' : List (Operation Address Val Id)} (follows : Follows operationId running' t')
    (apart : ∀ r ∈ running', r.id ≠ id) {key : Id} {updated : Operation Address Val Id}
    {event : Event Address Val} (other : key ≠ id)
    (records : t'.world.operations = t.world.operations.set key updated)
    (added : t'.log = t.log ++ [event])
    (foreign : ∀ call time, event = .invoked call time → operationId call ≠ id) :
    Closed operationId id operation log running' t' := by
  obtain ⟨events, eq, none⟩ := closed.later
  refine ⟨follows, ?_, apart, events ++ [event], ?_, fun call time mem => ?_⟩
  · rw [records, Store.lookup_set_of_ne _ _ other.symm, closed.stored]
  · rw [added, eq, List.append_assoc]
  · rcases List.mem_append.1 mem with old | new
    · exact none call time old
    · exact foreign call time (List.mem_singleton.1 new).symm

theorem Closed.id_ne (closed : Closed operationId id operation log running t)
    (done : operation.status = .done) {key : Id} {stored : Operation Address Val Id}
    (found : t.world.operations.lookup key = some stored) (pending : stored.status = .pending) :
    stored.id ≠ id := by
  rw [(closed.follows.keyed key stored found).1]
  rintro rfl
  obtain rfl := Option.mem_unique closed.stored found
  simp [done] at pending

include injective

theorem Closed.serve (closed : Closed operationId id operation log running t)
    (done : operation.status = .done) (effect : Effect operationId t t') :
    Closed operationId id operation log running t' := by
  have follows := closed.follows.serve injective effect
  cases effect with
  | settings records same =>
    exact ⟨follows, by rw [records, closed.stored], closed.apart, same ▸ closed.later⟩
  | queued proposer call time delay free records added =>
    refine closed.update follows closed.apart ?_ records added nofun
    rintro rfl
    have status := free operation closed.stored
    simp [done] at status
  | canceled _ canceled stored pending records added =>
    exact closed.update follows closed.apart (closed.id_ne done stored pending) records added nofun

theorem Closed.invoke [DecidableEq Address] (closed : Closed operationId id operation log running t)
    (done : operation.status = .done) {host : Host Address} {executor : Address} {key : Id}
    (invoked : invoke host executor key t = .ok (executing, t')) :
    Closed operationId id operation log (executing :: running) t' := by
  have follows := closed.follows.invoke injective invoked
  obtain ⟨stored, found, pending, -, rfl, records, added⟩ := invoke_ok invoked
  have other := closed.id_ne done found pending
  refine closed.update follows (List.forall_mem_cons.2 ⟨other, closed.apart⟩) other records added ?_
  rintro _ _ ⟨⟩
  obtain ⟨own, hash⟩ := closed.follows.keyed key stored found
  rwa [hash, ← own]

theorem Closed.finish (closed : Closed operationId id operation log (executing :: running) t) :
    Closed operationId id operation log running
      { t with world := finishExecute executing t.world } := by
  obtain ⟨other, apart⟩ := List.forall_mem_cons.1 closed.apart
  refine ⟨closed.follows.finish injective, ?_, apart, closed.later⟩
  exact (Store.lookup_set_of_ne _ _ other.symm).trans closed.stored

end Safety

/-- Whatever targets do, and whichever calls fail and are undone: an invocation follows the queueing
of the call by at least the delay then in force, no call is invoked twice, a canceled call is not
invoked unless it is queued again, and once an operation is done its id is never invoked again. -/
theorem timelock_safety [DecidableEq Address] {operationId : Invocation Address Val → Id}
    (injective : Function.Injective operationId) {s : State Address Val Id}
    (reach : Reachable Initial (Step operationId) s) :
    (∀ c, Safe c s.world.log) ∧
      (s.frames = [] → ∀ id operation, s.world.world.operations.lookup id = some operation →
        operation.status = .done → ∀ actions s', Run (Step operationId) s actions s' →
          ∃ events, s'.world.log = s.world.log ++ events ∧
            ∀ call time, .invoked call time ∈ events → operationId call ≠ id) := by
  have holds := follows_of_reachable injective reach
  constructor
  · intro c
    obtain ⟨_, lived, -⟩ := holds.now.lived c
    exact lived.safe
  · intro idle id operation stored done actions s' run
    have start : Machine.Holds (Closed operationId id operation s.world.log) s.world s.frames := by
      have now := holds.now
      rw [idle] at now ⊢
      exact .nil ⟨now, stored, nofun, [], (List.append_nil _).symm, nofun⟩
    refine (run.invariant (P := fun s' =>
      Machine.Holds (Closed operationId id operation s.world.log) s'.world s'.frames) start
      fun _ _ _ holds step => ?_).now.later
    refine Machine.Step.invariant _ ?_ ?_ ?_ holds step
    · exact fun _ _ _ _ closed served => closed.serve injective done (serve_effect served)
    · exact fun _ _ _ _ _ closed invoked => closed.invoke injective done invoked
    · exact fun _ _ _ closed => closed.finish injective

/-! ## A nested run -/

def everyone (timestamp : ℕ) : Host ℕ := ⟨timestamp, fun _ => true⟩

def payout : Invocation ℕ ℕ := ⟨9, "pay", [5], ⟨List.replicate 32 0, Sha256.length_zeros⟩⟩

/-- The call is queued and executed ten seconds later.  Its target tries to execute and to queue it
again, and fails in a call of its own. -/
theorem nested_run :
    ∃ s : State ℕ ℕ (Invocation ℕ ℕ), Reachable Initial (Step id) s ∧ s.frames = [] ∧
      s.world.log = [.queued payout 100 10, .invoked payout 110] ∧
      (∃ operation, s.world.world.operations.lookup payout = some operation ∧
        operation.status = .done) ∧
      Safe payout s.world.log := by
  have created : Reachable Initial (Step id) (⟨{}, []⟩ : State ℕ ℕ (Invocation ℕ ℕ)) := .start rfl
  have configured := created.next
    (Machine.Step.call (k := (everyone 0, .initializeController 1 2 3 4 10)) rfl)
  have queued := configured.next (Machine.Step.call (k := (everyone 100, .queue 2 payout)) rfl)
  have started := queued.next (Machine.Step.start (i := (everyone 110, 3, payout)) rfl)
  have again := started.next (Machine.Step.startRefused (i := (everyone 110, 3, payout))
    (by rintro _ _ ⟨⟩))
  have queued_again := again.next (Machine.Step.callRefused (k := (everyone 110, .queue 2 payout))
    (by rintro _ ⟨⟩))
  have entered := queued_again.next .enter
  have changed := entered.next (Machine.Step.call (k := (everyone 110, .setMinDelay 1 20)) rfl)
  have undone := changed.next .fail
  have done := undone.next .leave
  exact ⟨_, done, rfl, rfl, ⟨_, rfl, rfl⟩, (timelock_safety Function.injective_id done).1 payout⟩

end TimelockController
