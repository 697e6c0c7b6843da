import Perigee.Governance.Effects

/-!
# The ledger of delegated power

The contract keeps a total for every delegate and moves a delegator's power between totals when it
delegates.  It uses the power of that moment, so a power that is set while it is delegated leaves
the totals behind.
-/

namespace Governance

open Soroban

variable {Address : Type} [DecidableEq Address] {host : Host Address} {w w' : World Address}

/-- The sum of the powers of the users whose delegate is `d`. -/
def delegatedTo (w : World Address) (d : Address) : ℤ :=
  w.votingPower.sumBy fun user power => if readDelegate w user = some d then power else 0

/-- Every stored total is the sum of the powers delegated. -/
def LedgerHolds (w : World Address) : Prop := ∀ d, w.delegate.getD d 0 = delegatedTo w d

def Call.assigned : Call Address → Option (Address × ℤ)
  | .setVotingPower user power => some (user, power)
  | _ => none

/-- The call changes no power that is delegated. -/
def FixedWhileDelegated (w : World Address) (action : Action Address) : Prop :=
  ∀ a ∈ action.call.assigned, readDelegate w a.1 = none ∨ a.2 = readVotingPower w a.1

instance (w : World Address) (action : Action Address) : Decidable (FixedWhileDelegated w action) :=
  inferInstanceAs (Decidable (∀ a ∈ action.call.assigned, _))

/-! ## The sums after a call -/

theorem share_delegated (w : World Address) (delegation : Address → Option Address)
    (user d : Address) :
    w.votingPower.share (fun u power => if delegation u = some d then power else 0) user =
      if delegation user = some d then readVotingPower w user else 0 :=
  Store.share_eq_getD _ _ _ (by simp)

theorem delegatedTo_delegate (w : World Address) (delegator delegate d : Address)
    (totals : Store Address ℤ) :
    delegatedTo { w with
        delegatedPower := w.delegatedPower.set delegator delegate
        delegate := totals } d =
      delegatedTo w d -
        (if readDelegate w delegator = some d then readVotingPower w delegator else 0) +
        if d = delegate then readVotingPower w delegator else 0 := by
  have exchange := Store.share_add_sumBy_of_agree
    (f := fun u power => if readDelegate w u = some d then power else 0)
    (g := fun u power =>
      if (w.delegatedPower.set delegator delegate).lookup u = some d then power else 0)
    w.votingPower delegator (by
      intro u power other
      rw [Store.lookup_set_of_ne _ _ other]
      rfl)
  rw [share_delegated w (readDelegate w),
    share_delegated w fun u => (w.delegatedPower.set delegator delegate).lookup u] at exchange
  simp only [Store.lookup_set_self, Option.some.injEq, eq_comm (a := delegate)] at exchange
  have before : delegatedTo w d = Store.sumBy _ w.votingPower := rfl
  have after : delegatedTo { w with
        delegatedPower := w.delegatedPower.set delegator delegate
        delegate := totals } d =
      w.votingPower.sumBy fun u power =>
        if (w.delegatedPower.set delegator delegate).lookup u = some d then power else 0 := rfl
  linarith

theorem delegatedTo_writeVotingPower (w : World Address) (user d : Address) (power : ℤ) :
    delegatedTo (writeVotingPower user power w) d =
      delegatedTo w d +
        if readDelegate w user = some d then power - readVotingPower w user else 0 := by
  have exchange := Store.share_add_sumBy_set
    (fun u p => if readDelegate w u = some d then p else 0) w.votingPower user power
  rw [share_delegated w (readDelegate w)] at exchange
  change _ + delegatedTo (writeVotingPower user power w) d = _ + delegatedTo w d at exchange
  split_ifs at exchange ⊢ <;> linarith

/-- The ledger survives the assignment of a power exactly when it changes no delegated power. -/
theorem ledger_writeVotingPower_iff (ledger : LedgerHolds w) (user : Address) (power : ℤ) :
    LedgerHolds (writeVotingPower user power w) ↔
      readDelegate w user = none ∨ power = readVotingPower w user := by
  have sums (d : Address) : w.delegate.getD d 0 = delegatedTo (writeVotingPower user power w) d ↔
      (readDelegate w user = some d → power = readVotingPower w user) := by
    rw [ledger d, delegatedTo_writeVotingPower]
    split_ifs with delegated
    · simp only [delegated, forall_const]
      omega
    · simp [delegated]
  unfold LedgerHolds
  rw [show (∀ d, (writeVotingPower user power w).delegate.getD d 0 =
      delegatedTo (writeVotingPower user power w) d) ↔ _ from forall_congr' sums]
  cases readDelegate w user with
  | none | some => simp

theorem ledger_step_iff {action : Action Address} (ledger : LedgerHolds w)
    (step : Step w action w') : LedgerHolds w' ↔ FixedWhileDelegated w action := by
  obtain ⟨host, call, reported⟩ := action
  have effect : Effect host w call reported w' := exec_effect step
  cases effect with
  | setVotingPower =>
    rw [ledger_writeVotingPower_iff ledger]
    simp [FixedWhileDelegated, Call.assigned]
  | @delegate _ _ moves =>
    refine iff_of_true (fun d => ?_) (by simp [FixedWhileDelegated, Call.assigned])
    rw [delegatedTo_delegate, ← ledger d]
    exact moves d
  | _ => exact iff_of_true ledger (by simp [FixedWhileDelegated, Call.assigned])

/-! ## Signs -/

def PowersNonneg (w : World Address) : Prop :=
  ∀ user power, w.votingPower.lookup user = some power → 0 ≤ power

def AssignsNonneg (action : Action Address) : Prop := ∀ a ∈ action.call.assigned, 0 ≤ a.2

instance (action : Action Address) : Decidable (AssignsNonneg action) :=
  inferInstanceAs (Decidable (∀ a ∈ action.call.assigned, _))

theorem PowersNonneg.step {action : Action Address} (nonneg : PowersNonneg w)
    (assigns : AssignsNonneg action) (step : Step w action w') : PowersNonneg w' := by
  obtain ⟨host, call, reported⟩ := action
  have effect : Effect host w call reported w' := exec_effect step
  cases effect with
  | @setVotingPower user power => exact Store.forall_set nonneg (assigns (user, power) rfl)
  | _ => exact nonneg

theorem delegatedTo_nonneg (nonneg : PowersNonneg w) (d : Address) : 0 ≤ delegatedTo w d := by
  refine Store.sumBy_nonneg _ _ fun e he => ?_
  have power := nonneg _ _ ((Store.mem_entries_iff _ _).1 he)
  split_ifs
  · exact power
  · exact le_rfl

/-- The runs that change no delegated power are the runs through states whose totals are the sums of
the delegated powers; without negative powers no total is negative. -/
theorem ledger_iff_fixed {w₀ : World Address} {actions : List (Action Address)}
    (init : Initial w₀) :
    (Run (Guarded FixedWhileDelegated Step) w₀ actions w ↔
      Run (Into LedgerHolds Step) w₀ actions w) ∧
    (Run (Guarded FixedWhileDelegated Step) w₀ actions w → LedgerHolds w ∧
      ((∀ action ∈ actions, AssignsNonneg action) → ∀ d, 0 ≤ w.delegate.getD d 0)) := by
  obtain ⟨config, rfl, -⟩ := init
  have start : True ∧ LedgerHolds ({ config } : World Address) := ⟨trivial, fun d => rfl⟩
  obtain ⟨forward, same⟩ := Run.guarded_iff_into (fun _ => True) start (fun _ _ _ _ _ => trivial)
    (fun _ _ _ _ ledger step => ledger_step_iff ledger step)
  refine ⟨same, fun run => ⟨forward run, fun assigns d => ?_⟩⟩
  rw [forward run d]
  have powers : PowersNonneg w := run.invariant_of_mem (by simp [PowersNonneg])
    fun _ action _ mem before last => before.step (assigns action mem) last.2
  exact delegatedTo_nonneg powers d

def delegatedOnce : List (Action ℕ) :=
  [signedBy 0 0 (.initializeGovernance 0 100 10 1), signedBy 0 0 (.setVotingPower 1 100),
    signedBy 1 1 (.delegate 2), signedBy 1 2 (.delegate 3), signedBy 0 3 (.setVotingPower 2 50)]

theorem delegatedOnce_ledger :
    ∃ w, Run (Guarded FixedWhileDelegated Step) {} delegatedOnce w ∧ LedgerHolds w ∧
      delegatedTo w 3 = 100 := by
  obtain ⟨w, run, power⟩ : ∃ w, Run (Guarded FixedWhileDelegated Step) {} delegatedOnce w ∧
      delegatedTo w 3 = 100 :=
    exists_guarded_run (fun _ _ _ => perform_step) (by decide +kernel)
  exact ⟨w, run, ((ledger_iff_fixed ⟨none, rfl, by simp⟩).2 run).1, power⟩

/-- A user delegates first, gets a power, and delegates again. -/
def assignedLate : List (Action ℕ) :=
  [signedBy 0 0 (.initializeGovernance 0 100 10 1), signedBy 1 0 (.delegate 2),
    signedBy 0 1 (.setVotingPower 1 100), signedBy 1 2 (.delegate 3)]

/-- A power that is assigned after it was delegated is later taken from a total it was never added
to. -/
theorem assigned_power_taken_from_total :
    ∃ w : World ℕ, Reachable Initial Step w ∧ PowersNonneg w ∧ w.delegate.getD 2 0 = -100 ∧
      delegatedTo w 2 = 0 := by
  obtain ⟨w, h, nonneg, total, sum⟩ : ∃ w, assignedLate.foldlM perform {} = .ok w ∧
      (∀ e ∈ w.votingPower.entries, 0 ≤ e.2) ∧ w.delegate.getD 2 0 = -100 ∧
      delegatedTo w 2 = 0 := by
    decide +kernel
  refine ⟨w, ⟨{}, _, ⟨none, rfl, by simp⟩, Run.of_foldlM (fun _ _ _ => perform_step) h⟩, ?_, total,
    sum⟩
  intro user power stored
  exact nonneg ⟨user, power⟩ ((Store.mem_entries_iff _ _).2 stored)

end Governance
