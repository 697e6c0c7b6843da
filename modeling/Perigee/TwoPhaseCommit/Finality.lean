import Perigee.Soroban.Run
import Perigee.TwoPhaseCommit.Uniformity

/-!
# Whether a committed transaction stays committed

A transaction is held by its owner and, under its id, by the reconciler.  Aborting does not look at
the phase: `abort`, `rollback` and the coordinator's `abort` roll a committed transaction back.  So
a committed transaction stays committed exactly as long as none of the three is called and nothing
else is registered under its id (`committed_is_final`).
-/

namespace TwoPhaseCommit

open Soroban

variable {s : System} {pending : List TwoPhaseTx}

/-! ## Calls -/

/-- A transaction, the records of the reconciler and the messages sent for the transaction. -/
structure System where
  tx : TwoPhaseTx
  pending : List TwoPhaseTx
  sent : List Message
  deriving DecidableEq

inductive Call where
  | prepare (clock : ℤ)
  | prepareAt (clock now : ℤ)
  | commitOp (clock : ℤ) (op : String)
  | commit
  | abort
  | rollback
  | cleanup
  | execute (clock : ℤ) (answers : Answers) (participants : List Participant)
  | coordinatorAbort (clock : ℤ) (answers : Answers) (participants : List Participant)
  | recover (clock : ℤ) (answers : Answers) (participants : List Participant)
  | register (tx : TwoPhaseTx)
  | reconcile (clock : ℤ)
  | recoverOrphaned (clock : ℤ)

def System.after {α : Type} (s : System) (call : Sent α) : System :=
  { s with tx := call.tx, sent := s.sent ++ call.messages }

def exec (s : System) : Call → System
  | .prepare clock => { s with tx := (s.tx.prepare clock).2 }
  | .prepareAt clock now => { s with tx := (s.tx.prepareAt clock now).2 }
  | .commitOp clock op => { s with tx := (s.tx.commitOp clock op).2 }
  | .commit => { s with tx := s.tx.commit.2 }
  | .abort => { s with tx := s.tx.abort }
  | .rollback => { s with tx := s.tx.rollback }
  | .cleanup => { s with tx := s.tx.cleanup }
  | .execute clock answers participants => s.after (execute clock answers participants s.tx)
  | .coordinatorAbort clock answers participants =>
    s.after (coordinatorAbort clock answers participants s.tx)
  | .recover clock answers participants => s.after (recover clock answers participants s.tx)
  | .register tx => { s with pending := Reconciler.register tx s.pending }
  | .reconcile clock => { s with pending := (Reconciler.reconcile clock s.pending).2 }
  | .recoverOrphaned clock => { s with pending := (Reconciler.recoverOrphaned clock s.pending).2 }

def Step (s : System) (call : Call) (s' : System) : Prop := s' = exec s call

/-- A new transaction, not registered, for which nothing was sent. -/
def Created (s : System) : Prop :=
  ∃ clock txId operations, s = ⟨TwoPhaseTx.new clock txId operations, [], []⟩

/-! ## What a transaction has recorded -/

/-- Operations are recorded only for a valid transaction, each of its operations at most once, and a
committed transaction has recorded all of them. -/
structure Sound (tx : TwoPhaseTx) : Prop where
  valid : tx.completedOps ≠ [] → tx.validateDefinition = .ok ()
  nodup : tx.completedOps.Nodup
  known : ∀ operation ∈ tx.completedOps, operation ∈ tx.operations
  full : tx.phase = .committed → tx.isFullyCommitted = true

theorem Sound.of_nil {tx : TwoPhaseTx} (empty : tx.completedOps = [])
    (phase : tx.phase ≠ .committed) :
    Sound tx where
  valid h := absurd empty h
  nodup := empty ▸ List.nodup_nil
  known := by simp [empty]
  full h := absurd h phase

theorem isFullyCommitted_iff {tx : TwoPhaseTx} :
    tx.isFullyCommitted = true ↔ tx.phase = .committed ∧ tx.operations ≠ [] ∧
      tx.completedOps.length = tx.operations.length ∧
        ∀ operation ∈ tx.operations, operation ∈ tx.completedOps := by
  simp [TwoPhaseTx.isFullyCommitted, and_assoc]

theorem Sound.commits {tx : TwoPhaseTx} (sound : Sound tx) (nonempty : tx.operations ≠ [])
    (all : ∀ operation ∈ tx.operations, operation ∈ tx.completedOps) :
    Sound { tx with phase := .committed } := by
  obtain ⟨operation, mem⟩ := List.exists_mem_of_ne_nil _ nonempty
  have valid := sound.valid (List.ne_nil_of_mem (all operation mem))
  refine ⟨sound.valid, sound.nodup, sound.known, fun _ => ?_⟩
  have perm : tx.completedOps.Perm tx.operations :=
    (List.perm_ext_iff_of_nodup sound.nodup (nodup_operations valid)).2 fun operation =>
      ⟨sound.known operation, all operation⟩
  exact isFullyCommitted_iff.2 ⟨rfl, nonempty, perm.length_eq, all⟩

variable {tx : TwoPhaseTx}

section Calls

variable (sound : Sound tx) (clock : ℤ) (answers : Answers) (participants : List Participant)

include sound

theorem Sound.prepare : Sound (tx.prepare clock).2 := by
  unfold TwoPhaseTx.prepare
  split_ifs
  · exact sound
  · exact sound
  · split
    · exact .of_nil rfl nofun
    · exact .of_nil rfl nofun

theorem Sound.prepareAt (now : ℤ) : Sound (tx.prepareAt clock now).2 := by
  have prepared := sound.prepare clock
  unfold TwoPhaseTx.prepareAt
  split
  · next eq =>
    rw [eq] at prepared
    exact ⟨prepared.valid, prepared.nodup, prepared.known, prepared.full⟩
  · next eq =>
    rw [eq] at prepared
    exact prepared

theorem Sound.ensurePrepared : Sound (tx.ensurePrepared clock).2 := by
  unfold TwoPhaseTx.ensurePrepared
  split_ifs
  · exact sound.prepare clock
  · exact sound

theorem Sound.recordCommitOp (op : String) :
    Sound (tx.recordCommitOp clock op).2 ∧ ((tx.recordCommitOp clock op).1 = .ok () →
      op ∈ (tx.recordCommitOp clock op).2.completedOps) := by
  have ready := sound.ensurePrepared clock
  unfold TwoPhaseTx.recordCommitOp
  split_ifs
  · exact ⟨sound, nofun⟩
  generalize tx.ensurePrepared clock = outcome at ready ⊢
  obtain ⟨_ | _, _⟩ := outcome
  · exact ⟨ready, nofun⟩
  dsimp only at ready ⊢
  split
  · exact ⟨ready, nofun⟩
  next valid =>
  split_ifs with known recorded
  · exact ⟨ready, nofun⟩
  · refine ⟨⟨fun _ => valid, ?_, ?_, nofun⟩, fun _ => by simp⟩
    · rw [← List.concat_eq_append]
      exact ready.nodup.concat recorded
    · intro operation mem
      rcases List.mem_append.1 mem with old | new
      · exact ready.known operation old
      · rw [List.mem_singleton.1 new]
        exact known
  · exact ⟨ready, nofun⟩

theorem Sound.commitOp (op : String) : Sound (tx.commitOp clock op).2 := by
  obtain ⟨recorded, mem⟩ := sound.recordCommitOp clock op
  unfold TwoPhaseTx.commitOp
  generalize tx.recordCommitOp clock op = outcome at recorded mem ⊢
  obtain ⟨_ | _, tx'⟩ := outcome
  · exact recorded
  dsimp only at recorded mem ⊢
  split_ifs with length
  · have nonempty : tx'.operations ≠ [] := List.ne_nil_of_mem (recorded.known op (mem rfl))
    have perm : tx'.completedOps.Perm tx'.operations :=
      (recorded.nodup.subperm recorded.known).perm_of_length_le length.ge
    exact recorded.commits nonempty fun _ => perm.mem_iff.2
  · exact recorded

theorem Sound.commit : Sound tx.commit.2 := by
  unfold TwoPhaseTx.commit
  split_ifs with empty committed inactive missing
  · exact sound
  · exact sound
  · exact sound
  · exact sound
  · refine sound.commits (mt List.isEmpty_iff.2 empty) fun _ mem => ?_
    rw [← List.mem_toFinset, ← not_not.1 missing]
    exact List.mem_toFinset.2 mem

theorem Sound.abort : Sound tx.abort := by
  unfold TwoPhaseTx.abort
  split_ifs
  · exact sound
  · exact .of_nil rfl nofun

theorem Sound.cleanup : Sound tx.cleanup := by
  unfold TwoPhaseTx.cleanup
  split_ifs
  · exact .of_nil rfl nofun
  · exact sound

theorem Sound.finishAbort (entries : List Entry) :
    Sound (finishAbort clock answers tx entries).2.1 := by
  simp only [TwoPhaseCommit.finishAbort]
  split_ifs
  · exact sound.abort
  · exact .of_nil rfl (by rintro ⟨⟩)

theorem Sound.commitAll (committed : List String) (rest : List Entry) :
    Sound (commitAll clock answers committed tx rest).2.1 := by
  induction rest generalizing committed tx with
  | nil => exact sound
  | cons entry _ ih =>
    rw [TwoPhaseCommit.commitAll]
    split
    · exact sound
    split_ifs
    · exact ih sound committed
    have recorded := (sound.recordCommitOp clock entry.operation).1
    split
    · next eq =>
      rw [eq] at recorded
      exact recorded
    · next eq =>
      rw [eq] at recorded
      exact ih recorded _

theorem Sound.commitPhase (prepared : List Entry) :
    Sound (commitPhase clock answers tx prepared).tx := by
  have passed := sound.commitAll clock answers [] prepared
  unfold TwoPhaseCommit.commitPhase
  generalize TwoPhaseCommit.commitAll clock answers [] tx prepared = pass at passed ⊢
  obtain ⟨_ | ⟨_, _⟩, tx', _⟩ := pass
  · have committed := Sound.commit passed
    dsimp only at committed ⊢
    generalize tx'.commit = outcome at committed ⊢
    obtain ⟨_ | _, _⟩ := outcome
    · exact committed.finishAbort clock answers prepared
    · exact committed
  · exact passed.finishAbort clock answers prepared

theorem Sound.execute : Sound (execute clock answers participants tx).tx := by
  have prepared := sound.prepare clock
  unfold TwoPhaseCommit.execute
  split_ifs
  · exact sound
  generalize tx.prepare clock = outcome at prepared ⊢
  obtain ⟨_ | _, tx'⟩ := outcome
  · exact prepared
  dsimp only at prepared ⊢
  split_ifs
  · exact prepared.abort
  rcases prepareAll answers (entries participants tx'.operations) with
    ⟨_ | ⟨_, _⟩, reached⟩
  · dsimp only
    split_ifs
    · exact prepared.abort
    · exact prepared.commitPhase clock answers reached
  · exact prepared.finishAbort clock answers reached

theorem Sound.recover : Sound (recover clock answers participants tx).tx := by
  have prepared := sound.prepare clock
  unfold TwoPhaseCommit.recover
  split_ifs
  · exact sound
  · exact sound
  · generalize tx.prepare clock = outcome at prepared ⊢
    obtain ⟨_ | _, _⟩ := outcome
    · exact prepared.abort
    · exact prepared
  · exact sound
  · exact sound.finishAbort clock answers _

end Calls

/-- Whatever was called, a committed transaction has recorded all its operations. -/
theorem sound_of_reachable (reach : Reachable Created Step s) : Sound s.tx := by
  refine reach.invariant (P := fun s => Sound s.tx) ?_ ?_
  · rintro _ ⟨clock, _, _, rfl⟩
    exact .of_nil rfl nofun
  · rintro s call _ sound rfl
    cases call with
    | prepare clock => exact sound.prepare clock
    | prepareAt clock now => exact sound.prepareAt clock now
    | commitOp clock op => exact sound.commitOp clock op
    | commit => exact sound.commit
    | abort | rollback => exact sound.abort
    | cleanup => exact sound.cleanup
    | execute clock answers participants => exact sound.execute clock answers participants
    | coordinatorAbort clock answers => exact sound.finishAbort clock answers _
    | recover clock answers participants => exact sound.recover clock answers participants
    | register | reconcile | recoverOrphaned => exact sound

/-! ## What leaves a committed transaction alone -/

/-- The records that the reconciler holds under the transaction's id are fully committed. -/
def Standing (s : System) : Prop :=
  ∀ record ∈ s.pending, record.txId = s.tx.txId → record.isFullyCommitted = true

/-- From `s` to `s'` the transaction is committed with the operations that it had recorded, the
reconciler does not hold anything else under its id if it did not before, and no abort is sent. -/
structure Final (s s' : System) : Prop where
  phase : s'.tx.phase = .committed
  completed : s'.tx.completedOps = s.tx.completedOps
  records : Standing s → Standing s'
  no_abort : ∃ messages, s'.sent = s.sent ++ messages ∧ ∀ message ∈ messages, message.kind ≠ .abort

/-- The call is no abort, and does not register something else under the transaction's id. -/
def Harmless (s : System) : Call → Prop
  | .abort | .rollback | .coordinatorAbort _ _ _ => False
  | .register tx => Standing s → tx.txId = s.tx.txId → tx.isFullyCommitted = true
  | _ => True

/-- The call leaves the transaction final. -/
def Keeps (s : System) (call : Call) : Prop := Final s (exec s call)

theorem prepare_committed (committed : tx.phase = .committed) (clock : ℤ) :
    tx.prepare clock = (false, tx) := if_pos committed

theorem commit_committed (committed : tx.phase = .committed) : tx.commit.2 = tx := by
  unfold TwoPhaseTx.commit
  split_ifs <;> rfl

theorem mem_register {record : TwoPhaseTx} :
    record ∈ Reconciler.register tx pending → record = tx ∨ record ∈ pending := by
  induction pending with
  | nil => simp [Reconciler.register]
  | cons =>
    rw [Reconciler.register]
    split_ifs
    · simp only [List.mem_cons]
      tauto
    · simp only [List.mem_cons]
      tauto

theorem self_mem_register (tx : TwoPhaseTx) (pending : List TwoPhaseTx) :
    tx ∈ Reconciler.register tx pending := by
  induction pending with
  | nil => simp [Reconciler.register]
  | cons _ _ ih =>
    rw [Reconciler.register]
    split_ifs <;> simp [ih]

/-- A pass of the reconciler that leaves fully committed records and all ids as they are. -/
theorem standing_of_pass {pass : TwoPhaseTx → TwoPhaseTx} (standing : Standing s)
    (ids : ∀ record, (pass record).txId = record.txId)
    (committed : ∀ record, record.isFullyCommitted = true → pass record = record) :
    Standing { s with pending := Reconciler.cleanupTerminal (s.pending.map pass) } := by
  intro record mem same
  obtain ⟨before, held, rfl⟩ := List.mem_map.1 (List.mem_filter.1 mem).1
  have full := standing before held ((ids before).symm.trans same)
  rw [committed before full]
  exact full

theorem abort_txId (tx : TwoPhaseTx) : tx.abort.txId = tx.txId := by
  unfold TwoPhaseTx.abort
  split_ifs <;> rfl

theorem prepare_txId (tx : TwoPhaseTx) (clock : ℤ) : (tx.prepare clock).2.txId = tx.txId := by
  unfold TwoPhaseTx.prepare
  split_ifs
  · rfl
  · rfl
  · split <;> rfl

theorem reconcileTx_txId (clock : ℤ) (tx : TwoPhaseTx) :
    (Reconciler.reconcileTx clock tx).2.txId = tx.txId := by
  have prepared := prepare_txId tx clock
  unfold Reconciler.reconcileTx
  split_ifs
  · rfl
  · rfl
  · exact abort_txId tx
  · generalize tx.prepare clock = outcome at prepared ⊢
    obtain ⟨_ | _, tx'⟩ := outcome
    · exact (abort_txId tx').trans prepared
    · exact prepared
  · rfl

theorem Final.of_pending (committed : s.tx.phase = .committed)
    (records : Standing s → Standing { s with pending }) : Final s { s with pending } :=
  ⟨committed, rfl, records, [], (List.append_nil _).symm, nofun⟩

/-- A call leaves a committed transaction final exactly when it is harmless, and then it leaves it
as it is. -/
theorem harmless_iff_keeps (full : s.tx.isFullyCommitted = true) (call : Call) :
    (Harmless s call ↔ Keeps s call) ∧ (Harmless s call → (exec s call).tx = s.tx) := by
  have committed := (isFullyCommitted_iff.1 full).1
  -- most calls give back the same state
  have same {call : Call} (harmless : Harmless s call) (eq : exec s call = s) :
      (Harmless s call ↔ Keeps s call) ∧ (Harmless s call → (exec s call).tx = s.tx) :=
    ⟨iff_of_true harmless (by rw [Keeps, eq]; exact .of_pending committed id), fun _ => by rw [eq]⟩
  have after {α : Type} {sent : Sent α} (eq : sent.tx = s.tx ∧ sent.messages = []) :
      s.after sent = s := by
    simp [System.after, eq]
  cases call with
  | prepare => exact same trivial (by simp [exec, prepare_committed committed])
  | prepareAt =>
    exact same trivial (by simp [exec, TwoPhaseTx.prepareAt, prepare_committed committed])
  | commitOp =>
    exact same trivial (by simp [exec, TwoPhaseTx.commitOp, TwoPhaseTx.recordCommitOp, committed])
  | commit => exact same trivial (by simp [exec, commit_committed committed])
  | abort | rollback =>
    refine ⟨iff_of_false id fun keeps => ?_, False.elim⟩
    have phase := keeps.phase
    simp [exec, TwoPhaseTx.rollback, abort_phase] at phase
  | cleanup => exact same trivial (by simp [exec, TwoPhaseTx.cleanup, committed])
  | execute =>
    refine same trivial (after ?_)
    simp only [execute, prepare_committed committed]
    split_ifs <;> exact ⟨rfl, rfl⟩
  | coordinatorAbort =>
    refine ⟨iff_of_false id fun keeps => absurd keeps.phase ?_, False.elim⟩
    change (finishAbort ..).2.1.phase ≠ _
    rw [settled_finishAbort]
    split_ifs <;> rintro ⟨⟩
  | recover =>
    exact same trivial (after (by simp only [recover, full, if_true, and_self]))
  | register tx =>
    refine ⟨⟨fun harmless => .of_pending committed fun standing record mem => ?_, ?_⟩, fun _ => rfl⟩
    · rcases mem_register mem with rfl | old
      · exact harmless standing
      · exact standing record old
    · exact fun keeps standing own =>
        keeps.records standing tx (self_mem_register tx s.pending) own
  | reconcile clock =>
    exact ⟨iff_of_true trivial (.of_pending committed fun standing => standing_of_pass standing
      (reconcileTx_txId clock) fun _ full => by rw [Reconciler.reconcileTx, if_pos full]),
      fun _ => rfl⟩
  | recoverOrphaned =>
    refine ⟨iff_of_true trivial (.of_pending committed fun standing => standing_of_pass standing
      (fun record => ?_) fun record full => ?_), fun _ => rfl⟩
    · unfold Reconciler.recoverTx
      split_ifs
      exacts [rfl, abort_txId record, rfl]
    · simp [Reconciler.recoverTx, (isFullyCommitted_iff.1 full).1]

theorem Final.trans {s₁ s₂ s₃ : System} (first : Final s₁ s₂) (second : Final s₂ s₃) :
    Final s₁ s₃ := by
  obtain ⟨sent, eq, clean⟩ := first.no_abort
  obtain ⟨sent', eq', clean'⟩ := second.no_abort
  refine ⟨second.phase, second.completed.trans first.completed,
    fun standing => second.records (first.records standing), sent ++ sent', ?_, ?_⟩
  · rw [eq', eq, List.append_assoc]
  · exact List.forall_mem_append.2 ⟨clean, clean'⟩

/-- A transaction that has reached phase `Committed` through the interface stays final through every
run without an abort and without another registration under its id, and these are exactly the runs
in which every call leaves it final. -/
theorem committed_is_final {s s' : System} {calls : List Call} (reach : Reachable Created Step s)
    (committed : s.tx.phase = .committed) :
    (Run (Guarded Harmless Step) s calls s' → Final s s') ∧
      (Run (Guarded Harmless Step) s calls s' ↔ Run (Guarded Keeps Step) s calls s') := by
  have full := (sound_of_reachable reach).full committed
  constructor
  · intro run
    refine (run.invariant (P := fun s₁ => s₁.tx.isFullyCommitted = true ∧ Final s s₁)
      ⟨full, .of_pending committed id⟩ ?_).2
    rintro s₁ call _ ⟨full, final⟩ ⟨harmless, rfl⟩
    obtain ⟨agree, kept⟩ := harmless_iff_keeps full call
    exact ⟨(kept harmless) ▸ full, final.trans (agree.1 harmless)⟩
  · refine Run.guarded_iff_guarded (fun s₁ => s₁.tx.isFullyCommitted = true) full ?_ ?_
    · exact fun s₁ call _ full _ => (harmless_iff_keeps full call).1
    · rintro s₁ call _ full rfl keeps
      obtain ⟨agree, kept⟩ := harmless_iff_keeps full call
      exact (kept (agree.2 keeps)) ▸ full

def twoOperations : System :=
  [.commitOp 1 "b", .commitOp 2 "a"].foldl exec ⟨TwoPhaseTx.new 0 "tx" ["a", "b"], [], []⟩

theorem reachable_twoOperations : Reachable Created Step twoOperations :=
  ((Reachable.start ⟨0, "tx", ["a", "b"], rfl⟩).next (l := .commitOp 1 "b") rfl).next
    (l := .commitOp 2 "a") rfl

/-- It is registered, recovered and executed again, and stays final. -/
theorem twoOperations_final :
    let calls : List Call := [.register twoOperations.tx, .recover (10 ^ 15) (fun _ => .ok ()) [],
      .execute (10 ^ 15) (fun _ => .ok ()) [fun _ => true]]
    Run (Guarded Harmless Step) twoOperations calls (calls.foldl exec twoOperations) ∧
      Final twoOperations (calls.foldl exec twoOperations) := by
  intro calls
  have run : Run (Guarded Harmless Step) twoOperations calls (calls.foldl exec twoOperations) := by
    refine ((Run.nil.snoc ⟨fun _ _ => ?_, rfl⟩).snoc ⟨trivial, rfl⟩).snoc ⟨trivial, rfl⟩
    decide +kernel
  exact ⟨run, (committed_is_final reachable_twoOperations (by decide +kernel)).1 run⟩

/-- The committed transaction is rolled back by `abort`, which clears what it had recorded, and the
coordinator's `abort` sends aborts for it. -/
theorem abort_rolls_back_committed :
    Reachable Created Step twoOperations ∧ twoOperations.tx.phase = .committed ∧
      (exec twoOperations .abort).tx.phase = .rolledBack ∧
      (exec twoOperations .abort).tx.completedOps = [] ∧
      (exec twoOperations (.coordinatorAbort 3 (fun _ => .ok ()) [fun _ => true])).sent =
        [⟨.abort, ⟨0, "b"⟩⟩, ⟨.abort, ⟨0, "a"⟩⟩] ∧
      ¬ Final twoOperations (exec twoOperations .abort) := by
  have rolled : (exec twoOperations .abort).tx.phase = .rolledBack := by decide +kernel
  refine ⟨reachable_twoOperations, by decide +kernel, rolled, by decide +kernel, by decide +kernel,
    fun final => ?_⟩
  have phase := final.phase
  cases phase

end TwoPhaseCommit
