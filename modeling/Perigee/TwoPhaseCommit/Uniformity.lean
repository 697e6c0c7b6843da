import Perigee.TwoPhaseCommit.Coordinator

/-!
# Every participant sees the same outcome

`execute` sends its messages in three passes over the supporting entries: prepares, commits and,
when something fails, aborts in the opposite order.  `Course` lists the ways a call can go, with the
messages of each; what holds of every participant is read off the four cases.
-/

namespace TwoPhaseCommit

variable {participants : List Participant} {operations committed : List String} {entry : Entry}
  {supported reached rest : List Entry} {answers : Answers} {tx : TwoPhaseTx} {kind : MessageKind}

/-! ## Valid definitions -/

theorem validateOperations_ok_iff (operations : List String) :
    ∀ unique, validateOperations unique operations = .ok () ↔
      (∀ operation ∈ operations, isBlank operation = false) ∧ operations.Nodup ∧
        ∀ operation ∈ operations, operation ∉ unique := by
  induction operations with
  | nil => simp [validateOperations]
  | cons _ _ ih =>
    intro unique
    rw [validateOperations]
    split_ifs with blank seen
    · simp [blank]
    · simp [seen]
    · rw [ih]
      simp only [List.mem_cons, forall_eq_or_imp, List.nodup_cons, not_or]
      simp only [Bool.not_eq_true] at blank
      constructor
      · rintro ⟨filled, nodup, fresh⟩
        exact ⟨⟨blank, filled⟩, ⟨fun mem => (fresh _ mem).1 rfl, nodup⟩, seen,
          fun other mem => (fresh other mem).2⟩
      · rintro ⟨⟨-, filled⟩, ⟨new, nodup⟩, -, fresh⟩
        exact ⟨filled, nodup, fun other mem => ⟨fun same => new (same ▸ mem), fresh other mem⟩⟩

theorem validateDefinition_ok_iff :
    tx.validateDefinition = .ok () ↔ isBlank tx.txId = false ∧ tx.operations ≠ [] ∧
      (∀ operation ∈ tx.operations, isBlank operation = false) ∧ tx.operations.Nodup := by
  unfold TwoPhaseTx.validateDefinition
  split_ifs with blank empty
  · simp [blank]
  · simp [List.isEmpty_iff.1 empty]
  · rw [validateOperations_ok_iff]
    simp [blank, mt List.isEmpty_iff.2 empty]

theorem nodup_operations (valid : tx.validateDefinition = .ok ()) : tx.operations.Nodup :=
  (validateDefinition_ok_iff.1 valid).2.2.2

/-! ## Entries -/

@[simp] theorem mem_entries :
    entry ∈ entries participants operations ↔ entry.operation ∈ operations ∧
      ∃ supports, participants[entry.participant]? = some supports ∧
        supports entry.operation = true := by
  obtain ⟨i, operation⟩ := entry
  simp only [entries, List.mem_flatMap, List.mem_map, List.mem_filter, Prod.exists,
    List.mem_zipIdx_iff_getElem?, Entry.mk.injEq]
  constructor
  · rintro ⟨supports, j, at_j, _, ⟨mem, supported⟩, rfl, rfl⟩
    exact ⟨mem, supports, at_j, supported⟩
  · rintro ⟨mem, supports, at_i, supported⟩
    exact ⟨supports, i, at_i, operation, ⟨mem, supported⟩, rfl, rfl⟩

theorem nodup_entries (participants : List Participant) (nodup : operations.Nodup) :
    (entries participants operations).Nodup := by
  rw [entries, List.nodup_flatMap]
  constructor
  · rintro ⟨supports, i⟩ -
    exact (nodup.filter _).map fun a b same => (Entry.mk.injEq .. ▸ same).2
  · have indices : (participants.zipIdx.map Prod.snd).Nodup := by
      rw [List.zipIdx_map_snd]
      exact List.nodup_range'
    refine (List.pairwise_map.1 indices).imp ?_
    rintro ⟨supports, i⟩ ⟨_, j⟩ distinct _ left right
    simp only [List.mem_map] at left right
    obtain ⟨_, -, rfl⟩ := left
    obtain ⟨_, -, same⟩ := right
    exact distinct (Entry.mk.injEq .. ▸ same).1.symm

/-! ## Messages -/

def lastTo (messages : List Message) (entry : Entry) : Option Message :=
  (messages.filter fun message => message.entry = entry).getLast?

def round (kind : MessageKind) (entries : List Entry) : List Message := entries.map (⟨kind, ·⟩)

@[simp] theorem mem_round {entries : List Entry} {message : Message} :
    message ∈ round kind entries ↔ message.kind = kind ∧ message.entry ∈ entries := by
  obtain ⟨_, entry⟩ := message
  simp only [round, List.mem_map, Message.mk.injEq]
  constructor
  · rintro ⟨_, mem, rfl, rfl⟩
    exact ⟨rfl, mem⟩
  · rintro ⟨rfl, mem⟩
    exact ⟨entry, mem, rfl, rfl⟩

theorem lastTo_append_round (before : List Message) {entries : List Entry} (mem : entry ∈ entries) :
    lastTo (before ++ round kind entries) entry = some ⟨kind, entry⟩ := by
  have last_mem : ∀ {m}, m ∈ (round kind entries).filter (fun m => m.entry = entry) →
      m = ⟨kind, entry⟩ := by
    intro m mem_filter
    simp only [List.mem_filter, mem_round, decide_eq_true_eq] at mem_filter
    obtain ⟨⟨rfl, -⟩, rfl⟩ := mem_filter
    rfl
  have nonempty : (round kind entries).filter (fun m => m.entry = entry) ≠ [] :=
    List.ne_nil_of_mem (a := ⟨kind, entry⟩) (by simpa using mem)
  rw [lastTo, List.filter_append, List.getLast?_append_of_ne_nil _ nonempty,
    List.getLast?_eq_some_getLast nonempty, last_mem (List.getLast_mem nonempty)]

/-! ## The three passes -/

/-- After the aborts the phase tells whether all of them were answered with success. -/
def Settled (answers : Answers) (entries : List Entry) (tx : TwoPhaseTx) : Prop :=
  tx.phase = if ∀ entry ∈ entries, answers ⟨.abort, entry⟩ = .ok () then .rolledBack else .aborting

theorem abort_phase (tx : TwoPhaseTx) : tx.abort.phase = .rolledBack := by
  unfold TwoPhaseTx.abort
  split_ifs with rolled
  exacts [rolled, rfl]

theorem settled_finishAbort (clock : ℤ) (answers : Answers) (tx : TwoPhaseTx)
    (entries : List Entry) :
    Settled answers entries (finishAbort clock answers tx entries).2.1 := by
  have clean : (abortEntries answers entries).1.isEmpty = true ↔
      ∀ entry ∈ entries, answers ⟨.abort, entry⟩ = .ok () := by
    have answered (entry : Entry) :
        abortError answers entry = none ↔ answers ⟨.abort, entry⟩ = .ok () := by
      unfold abortError
      split <;> simp_all
    simp [abortEntries, answered]
  simp only [Settled, finishAbort, ← clean]
  split_ifs with empty
  · exact abort_phase tx
  · rfl

/-- The entries that are sent a prepare are the first ones; without failure they are all of them,
and every answer is a success. -/
theorem prepareAll_spec (answers : Answers) (supported : List Entry) :
    (prepareAll answers supported).2 <+: supported ∧
      ((prepareAll answers supported).1 = none → (prepareAll answers supported).2 = supported ∧
        ∀ entry ∈ supported, answers ⟨.prepare, entry⟩ = .ok ()) := by
  induction supported with
  | nil => simp [prepareAll]
  | cons entry rest ih =>
    rw [prepareAll]
    split
    · exact ⟨⟨rest, rfl⟩, nofun⟩
    · next answered =>
      refine ⟨List.prefix_cons_inj entry |>.2 ih.1, fun none_failed => ?_⟩
      obtain ⟨all, succeeded⟩ := ih.2 none_failed
      exact ⟨congrArg _ all, List.forall_mem_cons.2 ⟨answered, succeeded⟩⟩

/-- A prepared transaction in which the operations `committed` are recorded. -/
structure Recording (tx : TwoPhaseTx) (committed : List String) : Prop where
  phase : tx.phase = .prepared ∨ tx.phase = .committing
  prepared : tx.preparedAt.isSome = true
  valid : tx.validateDefinition = .ok ()
  completed : tx.completedOps = committed.reverse
  nodup : committed.Nodup
  known : ∀ operation ∈ committed, operation ∈ tx.operations

theorem Recording.active (recording : Recording tx committed) :
    ¬(tx.phase ≠ .prepared ∧ tx.phase ≠ .committing) := by
  rcases recording.phase with h | h <;> simp [h]

theorem Recording.next (recording : Recording tx committed) (clock : ℤ) {operation : String}
    (known : operation ∈ tx.operations) (fresh : operation ∉ committed) :
    let tx' := { tx with phase := .committing, completedOps := tx.completedOps ++ [operation] }
    tx.recordCommitOp clock operation = (.ok (), tx') ∧
      Recording tx' (operation :: committed) := by
  have ready : tx.ensurePrepared clock = (true, tx) := by
    simp [TwoPhaseTx.ensurePrepared, Option.isNone_eq_false_iff.2 recording.prepared]
  have new : operation ∉ tx.completedOps := by simpa [recording.completed] using fresh
  refine ⟨?_, .inr rfl, recording.prepared, recording.valid, ?_,
    List.nodup_cons.2 ⟨fresh, recording.nodup⟩, List.forall_mem_cons.2 ⟨known, recording.known⟩⟩
  · simp [TwoPhaseTx.recordCommitOp, recording.active, ready, recording.valid, known, new]
  · simp [recording.completed]

/-- What is known of the commit pass over `rest` when `committed` was recorded before it. -/
structure CommitPass (answers : Answers) (operations committed : List String) (rest : List Entry)
    (pass : Option (String × String) × TwoPhaseTx × List Message) : Prop where
  sent : ∃ reached, reached <+: rest ∧ pass.2.2 = round .commit reached
  done : pass.1 = none → pass.2.2 = round .commit rest ∧
    (∀ entry ∈ rest, answers ⟨.commit, entry⟩ = .ok ()) ∧ pass.2.1.operations = operations ∧
      ∃ recorded, Recording pass.2.1 recorded ∧ (∀ operation ∈ committed, operation ∈ recorded) ∧
        ∀ entry ∈ rest, entry.operation ∈ recorded

theorem CommitPass.cons {committed' : List String}
    {pass : Option (String × String) × TwoPhaseTx × List Message}
    (tail : CommitPass answers operations committed' rest pass)
    (answered : answers ⟨.commit, entry⟩ = .ok ()) (head : entry.operation ∈ committed')
    (more : ∀ operation ∈ committed, operation ∈ committed') :
    CommitPass answers operations committed (entry :: rest)
      (pass.1, pass.2.1, ⟨.commit, entry⟩ :: pass.2.2) where
  sent := by
    obtain ⟨reached, first, sent⟩ := tail.sent
    exact ⟨entry :: reached, List.prefix_cons_inj entry |>.2 first, by simp [sent, round]⟩
  done none_failed := by
    obtain ⟨sent, succeeded, same, recorded, recording, kept, covered⟩ := tail.done none_failed
    exact ⟨by simp [sent, round], List.forall_mem_cons.2 ⟨answered, succeeded⟩, same, recorded,
      recording, fun operation mem => kept _ (more _ mem),
      List.forall_mem_cons.2 ⟨kept _ head, covered⟩⟩

theorem commitAll_spec (clock : ℤ) (recording : Recording tx committed)
    (known : ∀ entry ∈ rest, entry.operation ∈ tx.operations) :
    CommitPass answers tx.operations committed rest
      (commitAll clock answers committed tx rest) := by
  induction rest generalizing committed tx with
  | nil =>
    exact ⟨⟨[], List.prefix_rfl, rfl⟩, fun _ => ⟨rfl, nofun, rfl, committed, recording,
      fun _ mem => mem, nofun⟩⟩
  | cons entry rest ih =>
    obtain ⟨head, tail⟩ := List.forall_mem_cons.1 known
    rw [commitAll]
    split
    · exact ⟨⟨[entry], ⟨rest, rfl⟩, rfl⟩, nofun⟩
    next answered =>
    split_ifs with recorded
    · exact (ih recording tail).cons answered recorded fun _ mem => mem
    · obtain ⟨recorded_now, next⟩ := recording.next clock head recorded
      rw [recorded_now]
      exact (ih next tail).cons answered List.mem_cons_self
        fun _ mem => List.mem_cons_of_mem _ mem

theorem Recording.commit (recording : Recording tx committed)
    (all : ∀ operation ∈ tx.operations, operation ∈ committed) :
    tx.commit = (.ok (), { tx with phase := .committed }) ∧
      { tx with phase := .committed }.isFullyCommitted = true := by
  obtain ⟨-, nonempty, -, nodup⟩ := validateDefinition_ok_iff.1 recording.valid
  have same : ∀ operation, operation ∈ tx.operations ↔ operation ∈ tx.completedOps := by
    intro operation
    rw [recording.completed, List.mem_reverse]
    exact ⟨all operation, recording.known operation⟩
  have sets : tx.operations.toFinset = tx.completedOps.toFinset := by
    ext operation
    simp [same]
  have lengths : tx.completedOps.length = tx.operations.length := by
    have distinct : tx.completedOps.Nodup := by simpa [recording.completed] using recording.nodup
    rw [← List.toFinset_card_of_nodup distinct, ← List.toFinset_card_of_nodup nodup, sets]
  have uncommitted : tx.phase ≠ .committed := by
    rcases recording.phase with h | h <;> simp [h]
  constructor
  · simp [TwoPhaseTx.commit, nonempty, uncommitted, recording.active, sets]
  · simp [TwoPhaseTx.isFullyCommitted, nonempty, lengths, same]

/-! ## The ways a call can go -/

inductive Course (answers : Answers) (supported : List Entry) : Sent Unit → Prop
  | invalid (message : String) (tx : TwoPhaseTx) :
      Course answers supported ⟨.error (.invalid message), tx, []⟩
  | prepareFailed (operation message : String) (errors : List String) {tx : TwoPhaseTx}
      {reached : List Entry} (first : reached <+: supported)
      (settled : Settled answers reached tx) :
      Course answers supported ⟨.error (.prepare operation message errors), tx,
        round .prepare reached ++ round .abort reached.reverse⟩
  | commitFailed (operation message : String) (errors : List String) {tx : TwoPhaseTx}
      {reached : List Entry} (ready : ∀ entry ∈ supported, answers ⟨.prepare, entry⟩ = .ok ())
      (first : reached <+: supported) (settled : Settled answers supported tx) :
      Course answers supported ⟨.error (.commit operation message errors), tx,
        round .prepare supported ++ (round .commit reached ++ round .abort supported.reverse)⟩
  | committed {tx : TwoPhaseTx} (ready : ∀ entry ∈ supported, answers ⟨.prepare, entry⟩ = .ok ())
      (succeeded : ∀ entry ∈ supported, answers ⟨.commit, entry⟩ = .ok ())
      (full : tx.isFullyCommitted = true) :
      Course answers supported ⟨.ok (), tx, round .prepare supported ++ round .commit supported⟩

theorem prepare_accepts {clock : ℤ} {tx' : TwoPhaseTx} (accepted : tx.prepare clock = (true, tx')) :
    tx.validateDefinition = .ok () ∧
      tx' = { tx with phase := .prepared, completedOps := [], preparedAt := some clock } := by
  unfold TwoPhaseTx.prepare at accepted
  split_ifs at accepted
  · simp at accepted
  · simp at accepted
  · split at accepted
    · simp at accepted
    · next valid => exact ⟨valid, (Prod.mk.inj accepted).2.symm⟩

theorem covered_of_length (nodup : operations.Nodup)
    (known : ∀ entry ∈ supported, entry.operation ∈ operations)
    (length : (supported.map Entry.operation).dedup.length = operations.length) :
    ∀ operation ∈ operations, ∃ entry ∈ supported, entry.operation = operation := by
  have subset : (supported.map Entry.operation).toFinset ⊆ operations.toFinset := by
    intro operation mem
    simp only [List.mem_toFinset, List.mem_map] at mem ⊢
    obtain ⟨entry, supported_entry, rfl⟩ := mem
    exact known entry supported_entry
  have same := Finset.eq_of_subset_of_card_le subset
    (by rw [List.toFinset_card_of_nodup nodup, List.card_toFinset, length])
  intro operation mem
  have supported_op : operation ∈ (supported.map Entry.operation).toFinset := by
    rw [same]
    exact List.mem_toFinset.2 mem
  simpa using supported_op

theorem execute_course (clock : ℤ) (answers : Answers) (participants : List Participant)
    (tx : TwoPhaseTx) :
    Course answers (entries participants tx.operations)
      (execute clock answers participants tx) := by
  unfold execute
  split_ifs
  · exact .invalid _ _
  rcases outcome : tx.prepare clock with ⟨_ | _, _⟩
  · exact .invalid _ _
  obtain ⟨valid, rfl⟩ := prepare_accepts outcome
  simp only []
  split_ifs with uncovered
  · exact .invalid _ _
  have known : ∀ entry ∈ entries participants tx.operations, entry.operation ∈ tx.operations :=
    fun entry mem => (mem_entries.1 mem).1
  have spec := prepareAll_spec answers (entries participants tx.operations)
  rcases passed : prepareAll answers (entries participants tx.operations) with
    ⟨_ | ⟨operation, message⟩, _⟩
  · rw [passed] at spec
    obtain ⟨rfl, ready⟩ := spec.2 rfl
    simp only []
    split_ifs
    · exact .invalid _ _
    · have covered :=
        covered_of_length (nodup_operations valid) known (not_not.1 uncovered)
      unfold commitPhase
      generalize outcome : commitAll clock answers [] _ (entries participants tx.operations) = out
      have pass : CommitPass answers tx.operations [] (entries participants tx.operations) out := by
        rw [← outcome]
        have recording : Recording { tx with
            phase := .prepared, completedOps := [], preparedAt := some clock } [] :=
          ⟨.inl rfl, rfl, valid, rfl, List.nodup_nil, nofun⟩
        exact commitAll_spec clock recording known
      obtain ⟨_ | ⟨operation, message⟩, tx', _⟩ := out
      · obtain ⟨rfl, succeeded, same, recorded, recording', -, complete⟩ := pass.done rfl
        have all : ∀ operation ∈ tx'.operations, operation ∈ recorded := by
          rw [same]
          intro operation mem
          obtain ⟨entry, supported_entry, rfl⟩ := covered operation mem
          exact complete entry supported_entry
        obtain ⟨commits, full⟩ := recording'.commit all
        simp only [commits]
        exact .committed ready succeeded full
      · obtain ⟨_, first, sent_eq⟩ := pass.sent
        subst sent_eq
        exact .commitFailed operation message _ ready first
          (settled_finishAbort clock answers tx' _)
  · rw [passed] at spec
    exact .prepareFailed operation message _ spec.1 (settled_finishAbort clock answers _ _)

/-! ## Uniformity -/

/-- What all supporting entries see of one call of the coordinator. -/
structure Uniform (answers : Answers) (supported : List Entry) (call : Sent Unit) : Prop where
  commit_after_prepares : ∀ before entry after,
    call.messages = before ++ ⟨.commit, entry⟩ :: after →
      ∀ other ∈ supported, ⟨.prepare, other⟩ ∈ before ∧ answers ⟨.prepare, other⟩ = .ok ()
  committed : call.result = .ok () →
    (∀ entry ∈ supported, lastTo call.messages entry = some ⟨.commit, entry⟩ ∧
      answers ⟨.commit, entry⟩ = .ok ()) ∧
    (∀ message ∈ call.messages, message.kind ≠ .abort) ∧ call.tx.isFullyCommitted = true
  aborted : ∀ operation message errors,
    call.result = .error (.prepare operation message errors) ∨
      call.result = .error (.commit operation message errors) →
    (∀ entry, ⟨.prepare, entry⟩ ∈ call.messages →
      lastTo call.messages entry = some ⟨.abort, entry⟩ ∧
        call.messages.count ⟨.abort, entry⟩ = 1) ∧
    ((∀ entry, ⟨.abort, entry⟩ ∈ call.messages → answers ⟨.abort, entry⟩ = .ok ()) →
      call.tx.phase = .rolledBack) ∧
    (¬(∀ entry, ⟨.abort, entry⟩ ∈ call.messages → answers ⟨.abort, entry⟩ = .ok ()) →
      call.tx.phase = .aborting)

theorem prefix_before {first second before after : List Message} {message : Message}
    (split : first ++ second = before ++ message :: after) (later : message ∉ first) :
    ∀ other ∈ first, other ∈ before := by
  rcases List.append_eq_append_iff.1 split with ⟨rest, rfl, -⟩ | ⟨rest, rfl, eq⟩
  · exact fun other mem => List.mem_append_left _ mem
  · cases rest with
    | nil => simp
    | cons =>
      obtain ⟨rfl, -⟩ := List.cons.inj eq
      exact absurd (by simp) later

theorem Uniform.of_aborts {before : List Message} {error : TransactionError} (nodup : reached.Nodup)
    (no_abort : ∀ message ∈ before, message.kind ≠ .abort)
    (prepared : ∀ entry, ⟨.prepare, entry⟩ ∈ before → entry ∈ reached)
    (settled : Settled answers reached tx)
    (ready : ∀ first entry after,
      before ++ round .abort reached.reverse = first ++ ⟨.commit, entry⟩ :: after →
        ∀ other ∈ supported, ⟨.prepare, other⟩ ∈ first ∧ answers ⟨.prepare, other⟩ = .ok ()) :
    Uniform answers supported ⟨.error error, tx, before ++ round .abort reached.reverse⟩ := by
  have sent_abort : ∀ entry, ⟨.abort, entry⟩ ∈ before ++ round .abort reached.reverse ↔
      entry ∈ reached := by
    intro entry
    have early : (⟨.abort, entry⟩ : Message) ∉ before := fun mem => no_abort _ mem rfl
    simp [early]
  refine ⟨ready, nofun, fun _ _ _ _ => ⟨fun entry sent => ?_, ?_, ?_⟩⟩
  · have mem : entry ∈ reached.reverse := by
      rcases List.mem_append.1 sent with early | late
      · exact List.mem_reverse.2 (prepared entry early)
      · simp at late
    have early : (⟨.abort, entry⟩ : Message) ∉ before := fun mem => no_abort _ mem rfl
    refine ⟨lastTo_append_round before mem, ?_⟩
    rw [List.count_append, List.count_eq_zero.2 early, zero_add]
    exact List.count_eq_one_of_mem ((List.nodup_reverse.2 nodup).map fun _ _ same =>
      (Message.mk.injEq .. ▸ same).2) (by simpa using mem)
  · intro all
    exact settled.trans (if_pos fun entry mem => all entry ((sent_abort entry).2 mem))
  · intro some_failed
    refine settled.trans (if_neg fun all => some_failed fun entry sent => ?_)
    exact all entry ((sent_abort entry).1 sent)

theorem Course.uniform {call : Sent Unit} (course : Course answers supported call)
    (nodup : supported.Nodup) : Uniform answers supported call := by
  cases course with
  | invalid =>
    exact ⟨fun before entry after h => absurd h (by simp), nofun, by simp⟩
  | prepareFailed _ _ _ first settled =>
    refine .of_aborts (nodup.sublist first.sublist) (by simp +contextual) (by simp) settled
      fun before entry after h => ?_
    have sent : (⟨.commit, entry⟩ : Message) ∈ before ++ ⟨.commit, entry⟩ :: after := by simp
    rw [← h] at sent
    simp at sent
  | commitFailed _ message _ ready _ settled =>
    rw [← List.append_assoc]
    refine .of_aborts nodup (fun message mem => ?_) (by simp) settled
      fun before entry after h other mem => ?_
    · rcases List.mem_append.1 mem with h | h <;> simp [(mem_round.1 h).1]
    · rw [List.append_assoc] at h
      exact ⟨prefix_before h (by simp) _ (by simpa using mem), ready other mem⟩
  | committed ready succeeded full =>
    refine ⟨fun before entry after h other mem => ?_, fun _ => ⟨fun entry mem => ?_, ?_, full⟩,
      by simp⟩
    · exact ⟨prefix_before h (by simp) _ (by simpa using mem), ready other mem⟩
    · exact ⟨lastTo_append_round _ mem, succeeded entry mem⟩
    · intro message mem
      rcases List.mem_append.1 mem with h | h <;> simp [(mem_round.1 h).1]

/-! ## Calls that are not refused -/

def Preparable (phase : TxPhase) : Prop := phase = .prepared ∨ phase = .failed ∨ phase = .rolledBack

theorem prepare_of_valid (valid : tx.validateDefinition = .ok ()) (preparable : Preparable tx.phase)
    (clock : ℤ) :
    tx.prepare clock =
      (true, { tx with phase := .prepared, completedOps := [], preparedAt := some clock }) := by
  unfold TwoPhaseTx.prepare
  rcases preparable with h | h | h <;> simp [h, valid]

theorem entry_of_supports
    (covered : ∀ operation ∈ operations, ∃ supports ∈ participants, supports operation = true) :
    ∀ operation ∈ operations,
      ∃ entry ∈ entries participants operations, entry.operation = operation := by
  intro operation mem
  obtain ⟨supports, participant, supported⟩ := covered operation mem
  obtain ⟨i, at_i⟩ := List.mem_iff_getElem?.1 participant
  exact ⟨⟨i, operation⟩, mem_entries.2 ⟨mem, supports, at_i, supported⟩, rfl⟩

theorem length_dedup_entries (nodup : operations.Nodup)
    (covered : ∀ operation ∈ operations, ∃ supports ∈ participants, supports operation = true) :
    ((entries participants operations).map Entry.operation).dedup.length = operations.length := by
  have same : ((entries participants operations).map Entry.operation).toFinset =
      operations.toFinset := by
    ext operation
    simp only [List.mem_toFinset, List.mem_map]
    constructor
    · rintro ⟨_, mem, rfl⟩
      exact (mem_entries.1 mem).1
    · exact entry_of_supports covered operation
  rw [← List.card_toFinset, same, List.toFinset_card_of_nodup nodup]

/-- The outcome of a transaction is the same for all participants: a commit is sent only after every
supporting entry answered its prepare with success, success means that every entry was committed and
none aborted, and after a failed prepare or commit every entry that was sent a prepare is aborted
once and last.  A transaction that can be prepared is not refused. -/
theorem execute_uniform (clock : ℤ) (answers : Answers) {participants : List Participant}
    {tx : TwoPhaseTx} (valid : tx.validateDefinition = .ok ())
    (covered : ∀ operation ∈ tx.operations, ∃ supports ∈ participants, supports operation = true) :
    Uniform answers (entries participants tx.operations) (execute clock answers participants tx) ∧
      (Preparable tx.phase → ∀ message,
        (execute clock answers participants tx).result ≠ .error (.invalid message)) := by
  have nodup := nodup_entries participants (nodup_operations valid)
  refine ⟨(execute_course clock answers participants tx).uniform nodup,
    fun preparable message => ?_⟩
  obtain ⟨operation, mem⟩ :=
    List.exists_mem_of_ne_nil _ (validateDefinition_ok_iff.1 valid).2.1
  obtain ⟨supports, participant, -⟩ := covered operation mem
  obtain ⟨entry, supported, -⟩ := entry_of_supports covered operation mem
  have some_participant : participants ≠ [] := List.ne_nil_of_mem participant
  have some_entry : entries participants tx.operations ≠ [] := List.ne_nil_of_mem supported
  have same_length := length_dedup_entries (nodup_operations valid) covered
  have all := (prepareAll_spec answers (entries participants tx.operations)).2
  rcases passed : prepareAll answers (entries participants tx.operations) with
    ⟨_ | ⟨failed, _⟩, _⟩
  · rw [passed] at all
    obtain ⟨rfl, -⟩ := all rfl
    simp only [execute, prepare_of_valid valid preparable, passed, same_length,
      List.isEmpty_iff, some_participant, some_entry, ne_eq, not_true_eq_false, if_false,
      commitPhase]
    split
    · simp
    · split <;> simp
  · simp [execute, prepare_of_valid valid preparable, passed, same_length, some_participant]

/-- Two participants share the operation `"b"`; the second one refuses to commit it and fails the
abort of it, so the first one is aborted as well and the transaction stays in phase `Aborting`. -/
theorem execute_uniform_shared_operation :
    let participants : List Participant := [fun _ => true, fun operation => operation == "b"]
    let refuses : Answers := fun message =>
      if message.entry = ⟨1, "b"⟩ ∧ message.kind ≠ .prepare then .error "down" else .ok ()
    let call := execute 0 refuses participants (TwoPhaseTx.new 0 "tx" ["a", "b"])
    Uniform refuses (entries participants ["a", "b"]) call ∧
      call.result = .error (.commit "b" "down" ["b: down"]) ∧ call.tx.phase = .aborting :=
  ⟨(@execute_uniform 0 _ _ (TwoPhaseTx.new 0 "tx" ["a", "b"]) (by decide +kernel)
    (by decide +kernel)).1, by decide +kernel, by decide +kernel⟩

end TwoPhaseCommit
