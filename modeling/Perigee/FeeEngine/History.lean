import Perigee.FeeEngine.Effects

/-!
# The fee history

The history is numbered without gaps and its records are consistent, whatever the calls.  But
`compute_fees` reports the fees less the rebate, after both were recorded in full, and the sponsored
variant records the net charge a second time.
-/

namespace FeeEngine

open Soroban

section Contract

variable {Address : Type} [DecidableEq Address] {engine : Address} {env : LedgerEnv engine}
  {w w' : World Address} {v vault : Address} {nav fee net reported : ℤ} {b : FeeBreakdown}
  {action : Action engine}

/-- The records are those numbered from 1 to `feeSeq`, and each one is consistent. -/
structure HistorySound (w : World Address) : Prop where
  bound : w.feeSeq < 2 ^ 64
  stored : ∀ seq, (w.feeHistory.lookup seq).isSome ↔ 1 ≤ seq ∧ seq ≤ w.feeSeq
  records : ∀ seq record, w.feeHistory.lookup seq = some record →
    record.seq = seq ∧ record.Consistent

def recordedNet (v : Address) (w : World Address) : ℤ :=
  w.feeHistory.sumBy fun _ record => if record.vault = v then record.net else 0

/-- The sum of the net fees that the calls report as charged to `v`. -/
def reportedNet (v : Address) (actions : List (Action engine)) : ℤ :=
  (actions.map fun action => if action.call.charged = some v then action.reported else 0).sum

/-! ## Records -/

omit [DecidableEq Address] in
theorem HistorySound.congr (seq : w'.feeSeq = w.feeSeq) (history : w'.feeHistory = w.feeHistory)
    (sound : HistorySound w) : HistorySound w' := by
  refine ⟨seq ▸ sound.bound, ?_, ?_⟩
  · rw [seq, history]
    exact sound.stored
  · rw [history]
    exact sound.records

omit [DecidableEq Address] in
/-- Numbering goes on with the next number; at the end of its range, the last record is replaced. -/
theorem HistorySound.appended (sound : HistorySound w) (h : Appended vault net w w') :
    HistorySound w' := by
  obtain ⟨_, consistent, -, -, number, seq, history⟩ := h
  have bound := sound.bound
  have next : nextFeeSeq w = min (w.feeSeq + 1) (2 ^ 64 - 1) := rfl
  refine ⟨by omega, fun k => ?_, fun k r h => ?_⟩
  · rw [history, Store.lookup_set]
    split_ifs with same
    · simp only [Option.isSome_some, true_iff]
      omega
    · rw [sound.stored]
      omega
  · rw [history] at h
    exact Store.forall_set sound.records ⟨number, consistent⟩ k r h

omit [DecidableEq Address] in
theorem HistorySound.logged (sound : HistorySound w) (h : Logged vault fee w w') :
    HistorySound w' := by
  obtain ⟨-, seq, history⟩ | ⟨-, appended⟩ := h
  · exact sound.congr seq history
  · exact sound.appended appended

/-- Below the end of its range, the counter gives a new number and the record adds its net fee. -/
theorem Appended.recordedNet (sound : HistorySound w) (room : w.feeSeq + 1 < 2 ^ 64)
    (h : Appended vault net w w') (v : Address) :
    recordedNet v w' = recordedNet v w + if vault = v then net else 0 := by
  obtain ⟨record, -, rfl, rfl, -, -, history⟩ := h
  have fresh : w.feeHistory.lookup (nextFeeSeq w) = none := by
    rw [← Option.not_isSome_iff_eq_none, sound.stored]
    unfold nextFeeSeq
    omega
  unfold FeeEngine.recordedNet
  rw [history, Store.sumBy_set_fresh fresh, add_comm]

theorem Logged.recordedNet (sound : HistorySound w) (room : w.feeSeq + 1 < 2 ^ 64)
    (h : Logged vault fee w w') (v : Address) :
    recordedNet v w' = recordedNet v w + if vault = v then fee else 0 := by
  obtain ⟨rfl, -, history⟩ | ⟨-, appended⟩ := h
  · unfold FeeEngine.recordedNet
    rw [history, ite_self, add_zero]
  · exact appended.recordedNet sound room v

omit [DecidableEq Address] in
theorem Logged.feeSeq_le (h : Logged vault fee w w') : w'.feeSeq ≤ w.feeSeq + 1 := by
  obtain ⟨-, seq, -⟩ | ⟨-, _, -, -, -, -, seq, -⟩ := h
  · exact seq ▸ Nat.le_succ _
  · exact seq ▸ min_le_left _ _

/-! ## Calls -/

theorem computeFees_logged (h : computeFees env vault nav w = .ok (b, w')) :
    ∃ w₁ managementFee performanceFee rebate,
      Logged vault managementFee w w₁ ∧ Logged vault performanceFee w₁ w' ∧
      managementFee = (termsOf env w).accrued (loadVaultOrDefault w vault).lastAccrual nav ∧
      performanceFee = (termsOf env w).charge ((loadVaultOrDefault w vault).profit nav) ∧
      rebateForStake w.discountTiers (loadStakeOrDefault w vault).staked = .ok rebate ∧
      b.total = managementFee + performanceFee ∧
      b.discount = (b.total * rebate).tdiv bpsDenominator ∧
      b.netTotal = b.total - b.discount ∧ b.netTotal = b.vaultShare + b.protocolShare := by
  obtain ⟨w₁, m, p, rebate, accrue, crystal, hr, total, rest⟩ := computeFees_ok h
  obtain ⟨hm, first⟩ := accrueManagementFee_ok accrue
  obtain ⟨hp, second⟩ := crystallize_ok crystal
  -- neither charge changes the schedule or the stakes, nor the first one the mark
  have mark :
      (loadVaultOrDefault w₁ vault).profit nav = (loadVaultOrDefault w vault).profit nav := by
    rw [loadVaultOrDefault_of_lookup ((first.effect.lookup vault).trans (if_pos rfl))]
    rfl
  have tiers := second.effect.setup.discountTiers.trans first.effect.setup.discountTiers
  have stakes := second.effect.setup.stakes.trans first.effect.setup.stakes
  rw [termsOf_of_sameSetup first.effect.setup, mark] at hp
  unfold loadStakeOrDefault at hr ⊢
  rw [tiers, stakes] at hr
  exact ⟨w₁, m, p, rebate, first.logged, second.logged, hm, hp, hr, total, rest⟩

theorem computeFeesSponsored_ok {payer : Address}
    (h : computeFeesSponsored env vault payer nav w = .ok (b, w')) :
    ∃ w₁, computeFees env vault nav w = .ok (b, w₁) ∧
      ((b.netTotal ≤ 0 ∧ w' = w₁) ∨ (0 < b.netTotal ∧ Appended vault b.netTotal w₁ w')) := by
  simp only [computeFeesSponsored, ok_iff] at h
  obtain ⟨_, -, ⟨b, w₁⟩, h, rfl, rfl⟩ := h
  obtain ⟨_, _, _, _, -, -, -, -, -, -, -, net, shares⟩ := computeFees_logged h
  refine ⟨w₁, h, ?_⟩
  split_ifs with positive
  · exact .inr ⟨positive, _, ⟨net, shares⟩, rfl, rfl, rfl, rfl, rfl⟩
  · exact .inl ⟨not_lt.1 positive, rfl⟩

theorem HistorySound.step (sound : HistorySound w) (step : Step engine w action w') :
    HistorySound w' := by
  obtain ⟨env, call, reported⟩ := action
  change exec env w call = .ok (reported, w') at step
  cases charged : call.charged with
  | none =>
    obtain ⟨-, seq, history, -⟩ := exec_uncharged (v := engine) (j := {}) charged step
    exact sound.congr seq history
  | some vault =>
    cases call with
    | accrueManagementFee => exact sound.logged (accrueManagementFee_ok step).2.logged
    | crystallize => exact sound.logged (crystallize_ok step).2.logged
    | computeFees =>
      simp only [exec, map_ok_iff] at step
      obtain ⟨_, h, -, rfl⟩ := step
      obtain ⟨_, _, _, _, first, second, -⟩ := computeFees_logged h
      exact (sound.logged first).logged second
    | computeFeesSponsored =>
      simp only [exec, map_ok_iff, Prod.mk.injEq] at step
      obtain ⟨_, h, -, rfl⟩ := step
      obtain ⟨_, h, last⟩ := computeFeesSponsored_ok h
      obtain ⟨_, _, _, _, first, second, -⟩ := computeFees_logged h
      have both := (sound.logged first).logged second
      obtain ⟨-, same⟩ | ⟨-, appended⟩ := last
      · exact same ▸ both
      · exact both.appended appended
    | _ => cases charged

/-! ## Recorded and reported -/

/-- Both fees that `compute_fees` charges. -/
def totalFee (terms : Terms) (state : VaultState) (nav : ℤ) : ℤ :=
  terms.accrued state.lastAccrual nav + terms.charge (state.profit nav)

/-- There is room for the records of the call; the rebate of `compute_fees` is less than one unit,
and its sponsored variant charges nothing. -/
def RecordsOnce (w : World Address) (action : Action engine) : Prop :=
  w.feeSeq + 2 < 2 ^ 64 ∧
    match action.call with
    | .computeFees vault nav => ∀ rebate,
        rebateForStake w.discountTiers (loadStakeOrDefault w vault).staked = .ok rebate →
          totalFee (termsOf action.env w) (loadVaultOrDefault w vault) nav * rebate < bpsDenominator
    | .computeFeesSponsored vault _ nav =>
        totalFee (termsOf action.env w) (loadVaultOrDefault w vault) nav = 0
    | _ => True

instance (w : World Address) : (action : Action engine) → Decidable (RecordsOnce w action)
  | ⟨_, call, _⟩ => by cases call <;> exact inferInstanceAs (Decidable (_ ∧ _))

def HasRoom (w : World Address) (_ : Action engine) : Prop := w.feeSeq + 3 < 2 ^ 64

theorem computeFees_discount (h : computeFees env vault nav w = .ok (b, w')) :
    b.total = totalFee (termsOf env w) (loadVaultOrDefault w vault) nav ∧ 0 ≤ b.total ∧
      0 ≤ b.discount ∧ b.netTotal = b.total - b.discount ∧
      (b.discount = 0 ↔ ∀ rebate,
        rebateForStake w.discountTiers (loadStakeOrDefault w vault).staked = .ok rebate →
          totalFee (termsOf env w) (loadVaultOrDefault w vault) nav * rebate <
            bpsDenominator) := by
  obtain ⟨_, m, p, rebate, -, -, rfl, rfl, hr, total, discount, net, -⟩ := computeFees_logged h
  have nonneg : 0 ≤ b.total := total ▸ add_nonneg (Terms.accrued_nonneg _ _ _)
    (Terms.charge_nonneg _ (VaultState.profit_nonneg _ _))
  have product : 0 ≤ b.total * rebate := mul_nonneg nonneg (Int.natCast_nonneg _)
  rw [Int.tdiv_eq_ediv_of_nonneg product] at discount
  have small : b.discount = 0 ↔ b.total * rebate < bpsDenominator := by
    unfold bpsDenominator at discount ⊢
    omega
  refine ⟨total, nonneg, ?_, net, ?_⟩
  · rw [discount]
    exact Int.ediv_nonneg product (by decide)
  · rw [small, hr, total]
    simp [totalFee]

theorem computeFees_recordedNet (sound : HistorySound w) (room : w.feeSeq + 2 < 2 ^ 64)
    (h : computeFees env vault nav w = .ok (b, w')) (v : Address) :
    recordedNet v w' = recordedNet v w + if vault = v then b.total else 0 := by
  obtain ⟨_, m, p, _, first, second, -, -, -, total, -⟩ := computeFees_logged h
  have grown := first.feeSeq_le
  rw [second.recordedNet (sound.logged first) (by omega), first.recordedNet sound (by omega), total]
  split_ifs <;> ring

theorem recordsOnce_of_uncharged (room : w.feeSeq + 2 < 2 ^ 64)
    (uncharged : action.call.charged = none) : RecordsOnce w action := by
  obtain ⟨_, call, _⟩ := action
  refine ⟨room, ?_⟩
  cases call <;> trivial

/-- A sponsored charge is recorded in its parts and, if anything is left after the rebate, again. -/
theorem computeFeesSponsored_recordedNet (sound : HistorySound w) (room : w.feeSeq + 2 < 2 ^ 64)
    (h : computeFeesSponsored env vault payer nav w = .ok (b, w'))
    (last : totalFee (termsOf env w) (loadVaultOrDefault w vault) nav = 0 ∨
      w.feeSeq + 3 < 2 ^ 64) :
    ∃ extra, 0 ≤ extra ∧
      (extra = 0 ↔ totalFee (termsOf env w) (loadVaultOrDefault w vault) nav = 0) ∧
      ∀ v, recordedNet v w' = recordedNet v w + if vault = v then b.netTotal + extra else 0 := by
  obtain ⟨w₁, h, added⟩ := computeFeesSponsored_ok h
  obtain ⟨total, nonneg, discount, net, small⟩ := computeFees_discount h
  have parts := computeFees_recordedNet sound room h
  rw [← total] at last ⊢
  obtain ⟨none, rfl⟩ | ⟨positive, appended⟩ := added
  · refine ⟨b.total - b.netTotal, by omega, ?_, fun v => ?_⟩
    · have zero : b.total = 0 → b.discount = 0 := fun zero => small.2 fun _ _ => by
        rw [← total, zero, zero_mul]
        decide
      omega
    · rw [parts, add_sub_cancel]
  · obtain ⟨_, _, _, _, first, second, -⟩ := computeFees_logged h
    have grown := first.feeSeq_le
    have grown' := second.feeSeq_le
    refine ⟨b.total, nonneg, Iff.rfl, fun v => ?_⟩
    rw [appended.recordedNet ((sound.logged first).logged second) (by omega), parts]
    split_ifs <;> ring

/-- A call records what it reports and, unless it records once, something more. -/
theorem recordedNet_step (sound : HistorySound w) (room : w.feeSeq + 2 < 2 ^ 64)
    (last : RecordsOnce w action ∨ HasRoom w action) (step : Step engine w action w') :
    ∃ extra, 0 ≤ extra ∧ (extra = 0 ↔ RecordsOnce w action) ∧ ∀ v, recordedNet v w' =
      recordedNet v w + if action.call.charged = some v then action.reported + extra else 0 := by
  obtain ⟨env, call, reported⟩ := action
  change exec env w call = .ok (reported, w') at step
  cases charged : call.charged with
  | none =>
    refine ⟨0, le_rfl, iff_of_true rfl (recordsOnce_of_uncharged room charged), fun v => ?_⟩
    obtain ⟨-, -, history, -⟩ := exec_uncharged (v := v) (j := {}) charged step
    simp [recordedNet, history]
  | some =>
    simp only [Option.some.injEq]
    cases call with
    | accrueManagementFee =>
      obtain rfl := Option.some.inj charged
      refine ⟨0, le_rfl, iff_of_true rfl ⟨room, trivial⟩, fun v => ?_⟩
      rw [add_zero]
      exact (accrueManagementFee_ok step).2.logged.recordedNet sound (by omega) v
    | crystallize =>
      obtain rfl := Option.some.inj charged
      refine ⟨0, le_rfl, iff_of_true rfl ⟨room, trivial⟩, fun v => ?_⟩
      rw [add_zero]
      exact (crystallize_ok step).2.logged.recordedNet sound (by omega) v
    | computeFees =>
      obtain rfl := Option.some.inj charged
      simp only [exec, map_ok_iff] at step
      obtain ⟨⟨b, _⟩, h, rfl, rfl⟩ := step
      obtain ⟨-, -, nonneg, net, small⟩ := computeFees_discount h
      refine ⟨b.discount, nonneg, small.trans (and_iff_right room).symm, fun v => ?_⟩
      rw [computeFees_recordedNet sound room h, net, sub_add_cancel]
    | computeFeesSponsored vault payer nav =>
      obtain rfl := Option.some.inj charged
      simp only [exec, map_ok_iff, Prod.mk.injEq] at step
      obtain ⟨⟨b, _⟩, h, rfl, rfl⟩ := step
      obtain ⟨extra, nonneg, once, parts⟩ :=
        computeFeesSponsored_recordedNet sound room h (last.imp And.right id)
      exact ⟨extra, nonneg, once.trans (and_iff_right room).symm, parts⟩
    | _ => cases charged

theorem initial_history (init : Initial engine w) : HistorySound w ∧ recordedNet v w = 0 := by
  obtain ⟨_, _, _, _, h⟩ := init
  simp only [initializeEngine, ok_iff] at h
  obtain ⟨_, -, _, -, rfl⟩ := h
  exact ⟨⟨Nat.two_pow_pos 64, fun seq => by simp; omega, fun seq record h => by simp at h⟩, rfl⟩

theorem reportedNet_snoc (v : Address) (actions : List (Action engine)) (action : Action engine) :
    reportedNet v (actions ++ [action]) =
      reportedNet v actions + if action.call.charged = some v then action.reported else 0 := by
  simp [reportedNet]

theorem recordedNet_of_once {w₀ : World Address} {actions : List (Action engine)}
    (init : Initial engine w₀) (run : Run (Guarded RecordsOnce (Step engine)) w₀ actions w)
    (v : Address) : HistorySound w ∧ recordedNet v w = reportedNet v actions := by
  induction run with
  | nil => exact initial_history init
  | snoc _ last ih =>
    obtain ⟨sound, agree⟩ := ih
    obtain ⟨_, -, once, change⟩ := recordedNet_step sound last.1.1 (.inl last.1) last.2
    refine ⟨sound.step last.2, ?_⟩
    rw [change, once.2 last.1, add_zero, agree, reportedNet_snoc]

/-- As long as the numbers last, the records never fall behind the reports, and they are ahead once
a call has not recorded once. -/
theorem recordedNet_of_room {w₀ : World Address} {actions : List (Action engine)}
    (init : Initial engine w₀) (run : Run (Guarded HasRoom (Step engine)) w₀ actions w) :
    HistorySound w ∧ (∀ v, reportedNet v actions ≤ recordedNet v w) ∧
      ((∀ v, recordedNet v w = reportedNet v actions) →
        Run (Guarded RecordsOnce (Step engine)) w₀ actions w) := by
  induction run with
  | nil => exact ⟨(initial_history init (v := engine)).1,
      fun v => (initial_history init).2.ge, fun _ => .nil⟩
  | @snoc _ _ _ action _ last ih =>
    obtain ⟨sound, least, ih⟩ := ih
    have room : _ + 3 < 2 ^ 64 := last.1
    obtain ⟨extra, nonneg, once, change⟩ :=
      recordedNet_step sound (by omega) (.inr last.1) last.2
    refine ⟨sound.step last.2, fun v => ?_, fun equal => ?_⟩
    · have := least v
      rw [change, reportedNet_snoc]
      split_ifs <;> omega
    · -- the surplus of a run never falls, so that there was none before the last call either
      simp only [change, reportedNet_snoc] at equal
      refine (ih fun v => ?_).snoc ⟨?_, last.2⟩
      · have := least v
        have := equal v
        split_ifs at this <;> omega
      · cases charged : action.call.charged with
        | none => exact recordsOnce_of_uncharged (by omega) charged
        | some vault =>
          have := least vault
          have := equal vault
          rw [if_pos charged, if_pos charged] at this
          exact once.1 (by omega)

/-- After every run the history is numbered from 1 to its length and its records are consistent;
after a run whose steps all record once, the records of every vault add up to the net fees that the
calls reported, and as long as the numbers last, they do so after no other run. -/
theorem fee_history_transparent {w₀ : World Address} {actions : List (Action engine)}
    (init : Initial engine w₀) (run : Run (Step engine) w₀ actions w) :
    HistorySound w ∧
    (Run (Guarded RecordsOnce (Step engine)) w₀ actions w →
      ∀ v, recordedNet v w = reportedNet v actions) ∧
    (Run (Guarded HasRoom (Step engine)) w₀ actions w →
      (∀ v, recordedNet v w = reportedNet v actions) →
        Run (Guarded RecordsOnce (Step engine)) w₀ actions w) := by
  have sound : HistorySound w :=
    run.invariant (initial_history init (v := engine)).1 fun _ _ _ sound step => sound.step step
  exact ⟨sound, fun guarded v => (recordedNet_of_once init guarded v).2,
    fun roomy => (recordedNet_of_room init roomy).2.2⟩

end Contract

/-! ## Scenarios -/

/-- A deposit and, after a year, a charge of both fees with a rebate of less than one unit. -/
def chargedInFull : List (Action 0) :=
  [⟨signedAt 0, .setDiscountTiers 1 [⟨100, 100⟩], 0⟩, ⟨signedAt 0, .stake 5 100, 0⟩,
    ⟨signedAt 0, .recordDeposit 5 1000, 0⟩, ⟨signedAt 31536000, .computeFees 5 1500, 80⟩]

theorem chargedInFull_transparent :
    ∃ s, scenario (fun s a => decide (RecordsOnce s.world a)) chargedInFull = .ok s ∧
      recordedNet 5 s.world = 80 := by
  obtain ⟨s, h⟩ : ∃ s,
      scenario (fun s a => decide (RecordsOnce s.world a)) chargedInFull = .ok s := by
    decide +kernel
  obtain ⟨s₀, fresh, run⟩ := scenario_run h
  have steps : Run (Guarded RecordsOnce (Step 0)) s₀.world _ s.world :=
    run.map Watched.world fun _ _ _ step => ⟨of_decide_eq_true step.1, step.2.1⟩
  exact ⟨s, h, (fee_history_transparent fresh.1 (steps.mono fun _ _ _ step => step.2)).2.1 steps 5⟩

/-- With a rebate of one half, both fees are recorded in full while half of them is reported. -/
theorem rebate_not_recorded :
    ∃ w₀ actions w, Initial 0 w₀ ∧ Run (Step 0) w₀ actions w ∧
      recordedNet 5 w ≠ reportedNet 5 actions := by
  obtain ⟨s, h, differ⟩ : ∃ s, scenario (fun _ _ => true)
      [⟨signedAt 0, .setDiscountTiers 1 [⟨100, 5000⟩], 0⟩, ⟨signedAt 0, .stake 5 100, 0⟩,
        ⟨signedAt 0, .recordDeposit 5 1000, 0⟩,
        ⟨signedAt 31536000, .computeFees 5 1500, 40⟩] = .ok s ∧
      recordedNet 5 s.world = 80 := by
    decide +kernel
  obtain ⟨s₀, fresh, run⟩ := scenario_run h
  refine ⟨s₀.world, _, s.world, fresh.1, run.map Watched.world fun _ _ _ step => step.2.1, ?_⟩
  rw [differ]
  decide

end FeeEngine
