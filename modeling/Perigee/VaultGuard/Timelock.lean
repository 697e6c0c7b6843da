import Perigee.VaultGuard.Contract

/-!
# The delay of a global pause

One field, `pausedAt`, is the start of the global pause and of the partial ones.  A call of
`resumeOperations` that leaves no operation paused sets it to `0` also while everything is paused,
and then `unpause` measures the delay from the first ledger on.
-/

namespace VaultGuard

open Soroban

variable {Address : Type} [DecidableEq Address]

/-! ## What a call does -/

section Effects

variable {host : Host Address} {call : Call Address} {w w' : World Address}

inductive Effect (host : Host Address) (w : World Address) : Call Address → World Address → Prop
  | initializeGuard {admin guardian : Address} (fresh : w.roles = none) :
      Effect host w (.initializeGuard admin guardian)
        (saveState ⟨false, 0, 0, false, none⟩ { w with roles := some ⟨admin, guardian⟩ })
  | pause {caller : Address} {state : GuardState Address} (stored : w.state = some state) :
      Effect host w (.pause caller)
        (saveState { state with allPaused := true, pausedAt := host.sequence } w)
  | pauseOperations {caller : Address} {mask : BitVec 32} {state : GuardState Address}
      (stored : w.state = some state) :
      Effect host w (.pauseOperations caller mask)
        (saveState { state with
          pausedOperations := state.pausedOperations ||| mask
          pausedAt := if state.pausedOperations ||| mask ≠ 0 ∧ state.pausedAt = 0
            then host.sequence else state.pausedAt } w)
  | resumeOperations {caller : Address} {mask : BitVec 32} {state : GuardState Address}
      (stored : w.state = some state) :
      Effect host w (.resumeOperations caller mask)
        (saveState { state with
          pausedOperations := state.pausedOperations &&& ~~~mask
          pausedAt := if state.pausedOperations &&& ~~~mask = 0 then 0 else state.pausedAt } w)
  | unpause {caller : Address} {state : GuardState Address} (stored : w.state = some state)
      (aged : unpauseDelayLedgers ≤ host.sequence - state.pausedAt) :
      Effect host w (.unpause caller)
        (saveState { state with allPaused := false, pausedAt := 0 } w)
  | trip {caller : Address} {state : GuardState Address} (stored : w.state = some state) :
      Effect host w (.trip caller)
        (saveState { state with
          allPaused := true, pausedAt := host.sequence, tripped := true,
          trippedBy := some caller } w)
  | resetTrip {caller : Address} {state : GuardState Address} (stored : w.state = some state) :
      Effect host w (.resetTrip caller)
        (saveState { state with tripped := false, trippedBy := none } w)

theorem exec_effect (h : exec host w call = .ok w') : Effect host w call w' := by
  cases call <;>
    simp only [exec, initializeGuard, pause, pauseOperations, resumeOperations, unpause, trip,
      resetTrip, loadState, ok_iff, not_lt] at h
  case initializeGuard =>
    obtain ⟨_, fresh, _, -, _, -, rfl⟩ := h
    exact .initializeGuard (by simpa using fresh)
  case pause =>
    obtain ⟨_, -, state, stored, _, -, rfl⟩ := h
    exact .pause stored
  case pauseOperations =>
    obtain ⟨_, -, _, -, state, stored, _, -, rfl⟩ := h
    exact .pauseOperations stored
  case resumeOperations =>
    obtain ⟨_, -, _, -, state, stored, _, -, rfl⟩ := h
    exact .resumeOperations stored
  case unpause =>
    obtain ⟨state, stored, _, -, _, -, _, aged, rfl⟩ := h
    exact .unpause stored aged
  case trip =>
    obtain ⟨_, -, state, stored, _, -, rfl⟩ := h
    exact .trip stored
  case resetTrip =>
    obtain ⟨_, -, state, stored, _, -, _, -, rfl⟩ := h
    exact .resetTrip stored

/-- A global pause may be lifted by anyone who authorizes the call, once the delay has passed since
the recorded start. -/
theorem unpause_succeeds {caller : Address} {state : GuardState Address}
    (stored : w.state = some state) (paused : state.allPaused = true)
    (auth : host.auth caller = true)
    (aged : unpauseDelayLedgers ≤ host.sequence - state.pausedAt) :
    exec host w (.unpause caller) =
      .ok (saveState { state with allPaused := false, pausedAt := 0 } w) := by
  simp only [exec, unpause, loadState, requireAuth, ok_iff, not_lt, Bool.not_eq_false]
  exact ⟨state, stored, (), paused, (), auth, (), aged, rfl⟩

end Effects

variable {t : ℕ} {w w' : World Address}

/-! ## The delay -/

variable {action : Action Address} {s s₀ s₁ s₂ s₃ : Timed (World Address)}
  {before after : List (Action Address)}

def Call.PausesAll : Call Address → Prop
  | .pause _ | .trip _ => True
  | _ => False

def pausedAt (w : World Address) : ℕ := w.state.elim 0 GuardState.pausedAt

/-- The call is not a `resumeOperations` that leaves no operation paused while a global pause is in
force that began less than the delay ago. -/
def KeepsStart (w : World Address) (action : Action Address) : Prop :=
  match action.call, w.state with
  | .resumeOperations _ mask, some state =>
    state.allPaused = true → state.pausedOperations &&& ~~~mask = 0 →
      state.pausedAt = 0 ∨ state.pausedAt + unpauseDelayLedgers ≤ action.ledger
  | _, _ => True

instance (w : World Address) (action : Action Address) : Decidable (KeepsStart w action) := by
  unfold KeepsStart
  split <;> infer_instance

/-- Calls under non-decreasing ledger numbers. -/
abbrev TimedStep : Timed (World Address) → Action Address → Timed (World Address) → Prop :=
  Timed.Step Action.ledger Step

/-- A global pause recorded to have begun no earlier than ledger `t` is in force. -/
structure Standing (t : ℕ) (w : World Address) : Prop where
  roles : w.roles.isSome = true
  paused : ∃ state, w.state = some state ∧ state.allPaused = true ∧ t ≤ state.pausedAt

omit [DecidableEq Address] in
theorem Standing.globallyPaused (standing : Standing t w) : isGloballyPaused w = true := by
  obtain ⟨_, stored, paused, -⟩ := standing.paused
  unfold isGloballyPaused
  rw [stored]
  exact paused

def Founded (w : World Address) : Prop := w.state.isSome = true → w.roles.isSome = true

theorem Founded.step (founded : Founded w) (step : Step w action w') : Founded w' := by
  obtain ⟨_, _⟩ := action
  cases exec_effect step with
  | initializeGuard => exact fun _ => rfl
  | pause stored | pauseOperations stored | resumeOperations stored | unpause stored
  | trip stored | resetTrip stored => exact fun _ => founded (by rw [stored]; rfl)

theorem Standing.of_pausesAll (founded : Founded w) (sets : action.call.PausesAll)
    (step : Step w action w') : Standing action.ledger w' := by
  obtain ⟨_, call⟩ := action
  cases exec_effect step with
  | pause stored | trip stored => exact ⟨founded (by rw [stored]; rfl), _, rfl, rfl, le_rfl⟩
  | initializeGuard | pauseOperations | resumeOperations | unpause | resetTrip => exact sets.elim

/-- A call that keeps the start lets a global pause stand until the delay is over. -/
theorem Standing.step (standing : Standing t w) (present : t ≤ action.ledger)
    (step : Step w action w') (keeps : KeepsStart w action) :
    Standing t w' ∨ t + unpauseDelayLedgers ≤ action.ledger := by
  obtain ⟨roles, known, isStored, paused, start⟩ := standing
  obtain ⟨host, _⟩ := action
  cases exec_effect step with
  | initializeGuard fresh => simp [fresh] at roles
  | pause | trip => exact .inl ⟨roles, _, rfl, rfl, present⟩
  | @pauseOperations _ _ _ stored =>
    obtain rfl := Option.mem_unique isStored stored
    refine .inl ⟨roles, _, rfl, paused, ?_⟩
    dsimp only
    split_ifs
    · exact present
    · exact start
  | @resumeOperations _ mask _ stored =>
    obtain rfl := Option.mem_unique isStored stored
    have kept : known.pausedOperations &&& ~~~mask = 0 →
        known.pausedAt = 0 ∨ known.pausedAt + unpauseDelayLedgers ≤ host.sequence := by
      simpa only [KeepsStart, Action.ledger, stored, paused, true_imp_iff] using keeps
    by_cases empty : known.pausedOperations &&& ~~~mask = 0
    · rcases kept empty with none | aged
      · -- A pause at ledger `0` is recorded as `0` all along.
        refine .inl ⟨roles, _, rfl, paused, ?_⟩
        rw [if_pos empty]
        exact start.trans none.le
      · exact .inr ((Nat.add_le_add_right start _).trans aged)
    · refine .inl ⟨roles, _, rfl, paused, ?_⟩
      dsimp only
      rw [if_neg empty]
      exact start
  | @unpause _ _ stored aged =>
    obtain rfl := Option.mem_unique isStored stored
    refine .inr ?_
    show t + unpauseDelayLedgers ≤ host.sequence
    have elapsed : unpauseDelayLedgers ≤ host.sequence - known.pausedAt := aged
    have delay : 0 < unpauseDelayLedgers := by decide
    omega
  | resetTrip stored =>
    obtain rfl := Option.mem_unique isStored stored
    exact .inl ⟨roles, _, rfl, paused, start⟩

theorem Standing.run (standing : Standing t s.state) (present : t ≤ s.now)
    (run : Run (Guarded (fun s => KeepsStart s.state) TimedStep) s after s₁) :
    Standing t s₁.state ∨ t + unpauseDelayLedgers ≤ s₁.now := by
  have both : t ≤ s₁.now ∧ (Standing t s₁.state ∨ t + unpauseDelayLedgers ≤ s₁.now) := by
    refine run.invariant (P := fun s => t ≤ s.now ∧
      (Standing t s.state ∨ t + unpauseDelayLedgers ≤ s.now)) ⟨present, .inl standing⟩ ?_
    rintro u _ v ⟨started, stands⟩ ⟨keeps, later, now, step⟩
    refine ⟨now ▸ started.trans later, ?_⟩
    rw [now]
    rcases stands with stands | ended
    · exact stands.step (started.trans later) step keeps
    · exact .inr (ended.trans later)
  exact both.2

/-- After a call that does not keep the start, anyone can lift the global pause before the delay is
over. -/
theorem lifted_early (step : Step w action w') (clears : ¬ KeepsStart w action) :
    ∃ lift w'', action.ledger ≤ lift.ledger ∧ lift.ledger < pausedAt w + unpauseDelayLedgers ∧
      Step w' lift w'' ∧ isGloballyPaused w'' = false := by
  obtain ⟨host, call⟩ := action
  cases exec_effect step with
  | @resumeOperations caller _ _ stored =>
    simp only [KeepsStart, stored, Classical.not_imp, not_or, not_le] at clears
    obtain ⟨paused, empty, _, young⟩ := clears
    refine ⟨⟨⟨max host.sequence unpauseDelayLedgers, fun _ => true⟩, .unpause caller⟩, _,
      le_max_left _ _, max_lt ?_ ?_, unpause_succeeds rfl paused rfl ?_, rfl⟩
    · simpa only [pausedAt, Action.ledger, stored, Option.elim_some] using young
    · simp only [pausedAt, stored, Option.elim_some]
      omega
    · rw [if_pos empty]
      exact le_max_right _ _
  | initializeGuard | pause | pauseOperations | unpause | trip | resetTrip =>
    exact absurd trivial clears

/-! ## Runs -/

/-- In a run whose calls all keep the start, a global pause set by `pause` or `trip` is in force at
every ledger before the delay is over.  A call that does not keep the start lets it be lifted
early. -/
theorem pause_stands (start : s₀.state = {})
    (earlier : Run (Guarded (fun s => KeepsStart s.state) TimedStep) s₀ before s₁)
    (sets : action.call.PausesAll) (step : TimedStep s₁ action s₂)
    (later : Run (Guarded (fun s => KeepsStart s.state) TimedStep) s₂ after s₃) :
    (s₃.now < action.ledger + unpauseDelayLedgers → isGloballyPaused s₃.state = true) ∧
      ∀ resume w, Step s₃.state resume w → ¬ KeepsStart s₃.state resume →
        ∃ lift w', resume.ledger ≤ lift.ledger ∧
          lift.ledger < pausedAt s₃.state + unpauseDelayLedgers ∧ Step w lift w' ∧
          isGloballyPaused w' = false := by
  have founded : Founded s₁.state := by
    refine earlier.invariant (P := fun s => Founded s.state) ?_
      fun _ _ _ founded step => founded.step step.2.2.2
    rw [start]
    exact fun h => absurd h Bool.false_ne_true
  obtain ⟨-, now, made⟩ := step
  have standing := Standing.of_pausesAll founded sets made
  constructor
  · intro _
    rcases standing.run now.ge later with stands | _
    · exact stands.globallyPaused
    · omega
  · exact fun _ _ => lifted_early

def signed (ledger : ℕ) (call : Call ℕ) : Action ℕ := ⟨⟨ledger, fun _ => true⟩, call⟩

/-- Operations are paused before and resumed after the global pause, one of them stays paused. -/
def partlyResumed : List (Action ℕ) :=
  [signed 11 (.resumeOperations 0 1), signed 12 (.pauseOperations 0 4), signed 20 (.trip 1)]

theorem partlyResumed_stands :
    ∃ s₁ s₂ s₃ : Timed (World ℕ),
      Run (Guarded (fun s => KeepsStart s.state) TimedStep) ⟨{}, 0⟩
        [signed 1 (.initializeGuard 0 1), signed 5 (.pauseOperations 0 3)] s₁ ∧
      TimedStep s₁ (signed 10 (.pause 0)) s₂ ∧
      Run (Guarded (fun s => KeepsStart s.state) TimedStep) s₂ partlyResumed s₃ ∧
      s₃.now = 20 ∧ isGloballyPaused s₃.state = true := by
  obtain ⟨s₁, first, s₂, pause, s₃, last, now⟩ : ∃ s₁,
      [signed 1 (.initializeGuard 0 1), signed 5 (.pauseOperations 0 3)].foldlM
        (execIf (fun s => KeepsStart s.state) (Timed.perform Action.ledger perform)) ⟨{}, 0⟩ =
          .ok s₁ ∧
      ∃ s₂, Timed.perform Action.ledger perform s₁ (signed 10 (.pause 0)) = .ok s₂ ∧
      ∃ s₃, partlyResumed.foldlM
        (execIf (fun s => KeepsStart s.state) (Timed.perform Action.ledger perform)) s₂ =
          .ok s₃ ∧ s₃.now = 20 := by
    decide +kernel
  have carry (s : Timed (World ℕ)) (l : Action ℕ) (s' : Timed (World ℕ))
      (done : execIf (fun s => KeepsStart s.state) (Timed.perform Action.ledger perform) s l =
        .ok s') : Guarded (fun s => KeepsStart s.state) TimedStep s l s' := by
    obtain ⟨keeps, done⟩ := execIf_ok_iff.1 done
    exact ⟨keeps, Timed.perform_step (fun _ _ _ => id) done⟩
  have step : TimedStep s₁ (signed 10 (.pause 0)) s₂ := Timed.perform_step (fun _ _ _ => id) pause
  have sets : (signed 10 (.pause 0)).call.PausesAll := trivial
  have earlier := Run.of_foldlM carry first
  have later := Run.of_foldlM carry last
  exact ⟨s₁, s₂, s₃, earlier, step, later, now,
    (pause_stands rfl earlier sets step later).1 (by rw [now]; decide)⟩

/-- The admin pauses everything, resumes no operation at all, and the pause is lifted one ledger
later. -/
theorem resume_of_nothing_lifts_pause :
    ∃ s₁ s₂ s₃ : Timed (World ℕ),
      Run TimedStep ⟨{}, 0⟩ [signed 20000 (.initializeGuard 0 1)] s₁ ∧
      TimedStep s₁ (signed 20000 (.pause 0)) s₂ ∧
      Run TimedStep s₂ [signed 20000 (.resumeOperations 0 0), signed 20001 (.unpause 2)] s₃ ∧
      s₃.now = 20001 ∧ s₃.now < 20000 + unpauseDelayLedgers ∧
      isGloballyPaused s₃.state = false := by
  obtain ⟨s₁, first, s₂, pause, s₃, last, lifted⟩ : ∃ s₁,
      [signed 20000 (.initializeGuard 0 1)].foldlM (Timed.perform Action.ledger perform) ⟨{}, 0⟩ =
        .ok s₁ ∧
      ∃ s₂, Timed.perform Action.ledger perform s₁ (signed 20000 (.pause 0)) = .ok s₂ ∧
      ∃ s₃, [signed 20000 (.resumeOperations 0 0), signed 20001 (.unpause 2)].foldlM
        (Timed.perform Action.ledger perform) s₂ = .ok s₃ ∧
        s₃.now = 20001 ∧ s₃.now < 20000 + unpauseDelayLedgers ∧
        isGloballyPaused s₃.state = false := by
    decide +kernel
  have carry (s : Timed (World ℕ)) (l : Action ℕ) (s' : Timed (World ℕ))
      (done : Timed.perform Action.ledger perform s l = .ok s') : TimedStep s l s' :=
    Timed.perform_step (fun _ _ _ => id) done
  exact ⟨s₁, s₂, s₃, Run.of_foldlM carry first, carry _ _ _ pause, Run.of_foldlM carry last,
    lifted⟩

end VaultGuard
