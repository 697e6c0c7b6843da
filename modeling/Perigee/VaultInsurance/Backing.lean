import Perigee.VaultInsurance.Contract
import Perigee.Arith.Rounding

/-!
# The reserve backs the outstanding coverage

`Backed` says that the outstanding coverage is the coverage of the active policies and is covered by
the reserve.  A settlement pays out of the reserve without releasing any coverage, and a withdrawal
that is all premium releases the coverage of a policy that may have ended before.
-/

namespace VaultInsurance

open Soroban

section Contract

variable {Address : Type} [DecidableEq Address] {registry : Address} {env : Env registry}
  {w w' : World Address} {caller vault : Address} {amount : ℤ} {policy : Policy Address}
  {action : Env registry × Call Address}

def Policy.inForce (policy : Policy Address) : ℤ := if policy.active then policy.coverage else 0

def activeCoverage (w : World Address) : ℤ := w.policies.sumBy fun _ policy => policy.inForce

/-- The outstanding coverage is that of the active policies, and the reserve covers it. -/
def Backed (w : World Address) : Prop :=
  ∃ reserve, w.reserve = some reserve ∧
    reserve.outstandingCoverage ≤ reserve.unclaimedPremium ∧
    reserve.outstandingCoverage = activeCoverage w

/-- Coverage and insured value are positive, and no premium is negative. -/
structure Policy.Valid (policy : Policy Address) : Prop where
  coverage : 0 < policy.coverage
  insuredValue : 0 < policy.insuredValue
  accruedPremium : 0 ≤ policy.accruedPremium

def Sound (w : World Address) : Prop :=
  ∀ vault policy, w.policies.lookup vault = some policy → policy.Valid

theorem Sound.save (sound : Sound w) (valid : policy.Valid) :
    Sound (savePolicy w vault policy) := Store.forall_set sound valid

theorem activeCoverage_save {policy' : Policy Address} (h : w.policies.lookup vault = some policy) :
    activeCoverage (savePolicy w vault policy') =
      activeCoverage w - policy.inForce + policy'.inForce := by
  have exchange := Store.share_add_sumBy_set (fun _ p => Policy.inForce p) w.policies vault policy'
  rw [Store.share, h, Option.elim_some] at exchange
  unfold activeCoverage savePolicy
  linarith

/-- What the premium of a policy depends on: the premium of one epoch, the premium accrued and the
ledger it is charged from. -/
structure Account where
  perEpoch : ℤ
  accrued : ℤ
  since : ℕ
  deriving DecidableEq

def Policy.account (policy : Policy Address) : Account where
  perEpoch := ((policy.insuredValue * policy.premiumRateBps).tdiv bpsDenominator).tdiv 365
  accrued := policy.accruedPremium
  since := policy.lastPremiumLedger

omit [DecidableEq Address] in
theorem Policy.Valid.perEpoch_nonneg (valid : policy.Valid) : 0 ≤ policy.account.perEpoch :=
  Int.tdiv_nonneg (Int.tdiv_nonneg (mul_nonneg valid.insuredValue.le (Int.natCast_nonneg _))
    (by decide)) (by decide)

/-! ## What the calls do -/

theorem write_ok {provider : Provider} {coverage insuredValue : ℤ} {premiumRateBps : ℕ}
    {triggers : List Trigger}
    (h : write env caller vault provider coverage insuredValue premiumRateBps triggers w = .ok w') :
    ∃ reserve policy, 0 < coverage ∧ w.policies.lookup vault = none ∧ w.reserve = some reserve ∧
      reserve.outstandingCoverage + coverage ≤ reserve.unclaimedPremium ∧ policy.Valid ∧
      policy.coverage = coverage ∧ policy.active = true ∧
      w' = { savePolicy w vault policy with
        reserve := some { reserve with
          outstandingCoverage := reserve.outstandingCoverage + coverage } } := by
  simp only [write, loadReserve, ok_iff, not_or, not_le, not_lt, Bool.not_eq_true,
    Option.isSome_eq_false_iff, Option.isNone_iff_eq_none] at h
  obtain ⟨_, -, _, ⟨positive, insured⟩, _, -, _, -, _, fresh, reserve, hr, _, ⟨-, rfl⟩, _, backed,
    rfl⟩ := h
  exact ⟨reserve, _, positive, fresh, hr, backed, ⟨positive, insured, le_rfl⟩, rfl, rfl, rfl⟩

theorem cancel_ok (h : cancel env caller vault w = .ok w') :
    ∃ reserve policy, w.policies.lookup vault = some policy ∧ policy.active = true ∧
      w.reserve = some reserve ∧
      w' = { savePolicy w vault { policy with active := false } with
        reserve := some { reserve with
          outstandingCoverage := reserve.outstandingCoverage - policy.coverage } } := by
  simp only [cancel, loadPolicy, loadReserve, ok_iff, Bool.not_eq_false] at h
  obtain ⟨_, -, policy, hp, _, active, reserve, hr, _, ⟨-, rfl⟩, rfl⟩ := h
  exact ⟨reserve, policy, hp, active, hr, rfl⟩

theorem deposit_ok (h : deposit env vault amount w = .ok w') :
    ∃ policy, w.policies.lookup vault = some policy ∧
      ∃ accruedPremium, IsI128 accruedPremium ∧
        w' = savePolicy w vault { policy with accruedPremium } ∧
        accruedPremium = policy.accruedPremium +
          if env.sequence - policy.lastPremiumLedger < epochLedgers then policy.accruedPremium
          else policy.account.perEpoch *
            ((env.sequence - policy.lastPremiumLedger) / epochLedgers : ℕ) := by
  simp only [deposit, assessPremium, loadPolicy, ok_iff] at h
  obtain ⟨_, -, policy, hp, premium, ⟨p, hp', _, -, h⟩, accruedPremium, ⟨range, rfl⟩, rfl⟩ := h
  obtain rfl := Option.mem_unique hp hp'
  refine ⟨policy, hp, _, range, rfl, congrArg _ ?_⟩
  split_ifs at h ⊢
  · exact (pure_ok_iff.1 h).symm
  · simp only [applyBps, ok_iff] at h
    obtain ⟨_, ⟨_, ⟨-, rfl⟩, -, -, rfl⟩, _, ⟨-, -, rfl⟩, -, rfl⟩ := h
    rfl

/-- A withdrawal collects the premium into the reserve; one of at most the premium ends the
policy. -/
theorem withdraw_ok {r : ℤ × ℤ} (sound : Sound w) (h : withdraw env vault amount w = .ok (r, w')) :
    ∃ reserve policy policy', w.policies.lookup vault = some policy ∧ w.reserve = some reserve ∧
      r.1 ≤ policy.accruedPremium ∧ 0 ≤ r.1 ∧ policy'.Valid ∧
      policy'.coverage = policy.coverage ∧
      policy'.active = (policy.active && decide (policy.accruedPremium < amount)) ∧
      policy'.account = ⟨policy.account.perEpoch,
        if IsI128 (policy.accruedPremium - r.1) then policy.accruedPremium - r.1 else 0,
        env.sequence⟩ ∧
      w' = { savePolicy w vault policy' with
        reserve := some { reserve with
          premiumsIn := reserve.premiumsIn + r.1
          unclaimedPremium := reserve.unclaimedPremium + r.1
          outstandingCoverage := reserve.outstandingCoverage -
            if amount ≤ policy.accruedPremium then policy.coverage else 0 } } := by
  simp only [withdraw, loadPolicy, loadReserve, ok_iff, not_le] at h
  obtain ⟨_, -, _, positive, policy, hp, _, ⟨-, rfl⟩, reserve, hr, _, ⟨-, rfl⟩, _, ⟨-, rfl⟩,
    outstanding, hout, rfl, rfl⟩ := h
  have valid := sound vault policy hp
  have accrued := valid.accruedPremium
  have nothing :
      amount - min policy.accruedPremium amount = 0 ↔ amount ≤ policy.accruedPremium := by
    rw [sub_eq_zero, eq_comm, min_eq_right_iff]
  have release : outstanding = reserve.outstandingCoverage -
      if amount ≤ policy.accruedPremium then policy.coverage else 0 := by
    unfold released at hout
    by_cases ends : amount ≤ policy.accruedPremium
    · rw [if_pos (nothing.2 ends)] at hout
      rw [if_pos ends]
      exact (checkedI128_ok_iff.1 hout).2.symm
    · rw [if_neg (mt nothing.1 ends)] at hout
      rw [if_neg ends, sub_zero]
      exact (pure_ok_iff.1 hout).symm
  subst release
  have left : 0 ≤ policy.accruedPremium - min policy.accruedPremium amount :=
    sub_nonneg.2 (min_le_left _ _)
  refine ⟨reserve, policy, { policy with
    accruedPremium := if IsI128 (policy.accruedPremium - min policy.accruedPremium amount)
      then policy.accruedPremium - min policy.accruedPremium amount else 0
    lastPremiumLedger := env.sequence
    active := if amount - min policy.accruedPremium amount = 0 then false else policy.active },
    hp, hr, min_le_left _ _, le_min accrued positive.le,
    ⟨valid.coverage, valid.insuredValue, ?_⟩, rfl, ?_, rfl, rfl⟩
  · dsimp only
    split_ifs
    · exact left
    · exact le_rfl
  · dsimp only
    by_cases ends : amount ≤ policy.accruedPremium
    · simp [ends]
    · simp [mt nothing.1 ends, not_le.1 ends]

theorem fund_ok (h : fund env caller amount w = .ok w') :
    ∃ reserve, 0 < amount ∧ w.reserve = some reserve ∧
      w' = { w with reserve := some { reserve with
        unclaimedPremium := reserve.unclaimedPremium + amount } } := by
  simp only [fund, loadReserve, ok_iff, not_le] at h
  obtain ⟨_, -, _, positive, reserve, hr, _, ⟨-, rfl⟩, rfl⟩ := h
  exact ⟨reserve, positive, hr, rfl⟩

theorem openClaim_ok {claimant : Address} {trigger : Trigger}
    (h : openClaim env claimant vault trigger amount w = .ok w') :
    ∃ policy claim, w.policies.lookup vault = some policy ∧ amount ≤ policy.coverage ∧
      w.claims.lookup vault = none ∧ claim.amount = amount ∧ claim.settled = false ∧
      w' = { w with claims := w.claims.set vault claim } := by
  simp only [openClaim, loadPolicy, ok_iff, not_lt, Bool.not_eq_true, Option.isSome_eq_false_iff,
    Option.isNone_iff_eq_none] at h
  obtain ⟨_, -, _, -, policy, hp, _, -, _, -, _, covered, _, free, rfl⟩ := h
  exact ⟨policy, _, hp, covered, free, rfl, rfl, rfl⟩

theorem settle_ok {payout : ℤ} (h : settle env caller vault payout w = .ok w') :
    ∃ reserve claim, w.reserve = some reserve ∧ w.claims.lookup vault = some claim ∧
      claim.settled = false ∧ payout ≤ claim.amount ∧
      w' = { w with
        claims := w.claims.set vault { claim with settled := true }
        reserve := some { reserve with
          unclaimedPremium := reserve.unclaimedPremium - payout
          payoutsOut := reserve.payoutsOut + payout } } := by
  simp only [settle, loadReserve, ok_iff, not_lt, Bool.not_eq_true] at h
  obtain ⟨_, -, _, -, claim, hc, _, unsettled, _, within, reserve, hr, _, -, _, ⟨-, rfl⟩, _,
    ⟨-, rfl⟩, rfl⟩ := h
  exact ⟨reserve, claim, hr, hc, unsettled, within, rfl⟩

/-! ## Every step -/

/-- A settlement leaves the coverage backed, and a withdrawal of at most the premium is made on an
active policy. -/
def KeepsBacking (w : World Address) (action : Env registry × Call Address) : Prop :=
  match action.2 with
  | .settle _ _ payout => ∀ reserve ∈ w.reserve,
      payout ≤ reserve.unclaimedPremium - reserve.outstandingCoverage
  | .withdraw vault amount => ∀ policy ∈ w.policies.lookup vault,
      amount ≤ policy.accruedPremium → policy.active = true
  | _ => True

instance (w : World Address) :
    DecidablePred fun action : Env registry × Call Address => KeepsBacking w action
  | (_, .settle ..) => inferInstanceAs (Decidable (∀ reserve ∈ w.reserve, _))
  | (_, .withdraw vault _) =>
    inferInstanceAs (Decidable (∀ policy ∈ w.policies.lookup vault, _ → _))
  | (_, .write ..) | (_, .cancel ..) | (_, .deposit ..) | (_, .fund ..) | (_, .openClaim ..)
  | (_, .closeClaim ..) => .isTrue trivial

omit [DecidableEq Address] in
theorem backed_set_iff {reserve : Reserve} (h : w.reserve = some reserve) :
    Backed w ↔ reserve.outstandingCoverage ≤ reserve.unclaimedPremium ∧
      reserve.outstandingCoverage = activeCoverage w := by
  constructor
  · rintro ⟨r, hr, backed⟩
    obtain rfl := Option.mem_unique h hr
    exact backed
  · intro backed
    exact ⟨reserve, h, backed⟩

/-- From a backed state, a step leads to a backed state exactly if it keeps the backing. -/
theorem backed_step_iff (sound : Sound w) (backed : Backed w) (step : Step registry w action w') :
    Backed w' ↔ KeepsBacking w action := by
  obtain ⟨env, call⟩ := action
  change exec env w call = .ok w' at step
  obtain ⟨reserve, hr, covered, sum⟩ := backed
  cases call with
  | write _ vault =>
    obtain ⟨r, policy, positive, fresh, hr', enough, _, hcov, active, rfl⟩ := write_ok step
    obtain rfl := Option.mem_unique hr hr'
    refine iff_of_true ?_ trivial
    rw [backed_set_iff rfl]
    refine ⟨enough, ?_⟩
    have added := Store.sumBy_set_fresh (f := fun _ p => Policy.inForce p) fresh policy
    rw [Policy.inForce, if_pos active, hcov] at added
    rw [sum, add_comm]
    exact added.symm
  | cancel _ vault =>
    obtain ⟨r, policy, hp, active, hr', rfl⟩ := cancel_ok step
    obtain rfl := Option.mem_unique hr hr'
    refine iff_of_true ?_ trivial
    have positive := (sound vault policy hp).coverage
    have moved : activeCoverage (savePolicy w vault { policy with active := false }) = _ :=
      activeCoverage_save hp
    rw [Policy.inForce, if_pos active, Policy.inForce, if_neg Bool.false_ne_true, add_zero] at moved
    rw [backed_set_iff rfl]
    refine ⟨by dsimp only; omega, ?_⟩
    dsimp only
    rw [sum]
    exact moved.symm
  | deposit vault amount =>
    change deposit env vault amount w = .ok w' at step
    obtain ⟨policy, hp, _, -, rfl, -⟩ := deposit_ok step
    refine iff_of_true ⟨reserve, hr, covered, ?_⟩ trivial
    rw [sum, activeCoverage_save hp]
    exact (sub_add_cancel _ _).symm
  | withdraw vault amount =>
    obtain ⟨r, step⟩ := map_snd_ok_iff.1 step
    obtain ⟨_, policy, policy', hp, hr', -, _, -, hcov, active, -, rfl⟩ :=
      withdraw_ok sound step
    obtain rfl := Option.mem_unique hr hr'
    have positive := (sound vault policy hp).coverage
    have moved : activeCoverage (savePolicy w vault policy') = _ := activeCoverage_save hp
    rw [backed_set_iff rfl]
    unfold KeepsBacking
    simp only [hp, Option.mem_some_iff, forall_eq']
    change _ ∧ _ = activeCoverage (savePolicy w vault policy') ↔ _
    rw [moved, Policy.inForce, Policy.inForce, hcov, active]
    by_cases ends : amount ≤ policy.accruedPremium
    · have whole : decide (policy.accruedPremium < amount) = false :=
        decide_eq_false (not_lt.2 ends)
      cases policy.active <;> simp <;> omega
    · rw [decide_eq_true (not_le.1 ends), Bool.and_true]
      exact iff_of_true ⟨by omega, by omega⟩ fun h => absurd h ends
  | fund =>
    obtain ⟨r, positive, hr', rfl⟩ := fund_ok step
    obtain rfl := Option.mem_unique hr hr'
    refine iff_of_true ?_ trivial
    rw [backed_set_iff rfl]
    exact ⟨by dsimp only; omega, sum⟩
  | openClaim =>
    obtain ⟨_, _, -, -, -, -, -, rfl⟩ := openClaim_ok step
    exact iff_of_true ⟨reserve, hr, covered, sum⟩ trivial
  | settle =>
    obtain ⟨r, _, hr', -, -, -, rfl⟩ := settle_ok step
    obtain rfl := Option.mem_unique hr hr'
    rw [backed_set_iff rfl]
    unfold KeepsBacking
    simp only [hr, Option.mem_some_iff, forall_eq']
    constructor
    · intro h
      omega
    · intro h
      exact ⟨by omega, sum⟩
  | closeClaim =>
    simp only [exec, closeClaim, ok_iff] at step
    obtain ⟨_, -, rfl⟩ := step
    exact iff_of_true ⟨reserve, hr, covered, sum⟩ trivial

theorem Sound.step (sound : Sound w) (step : Step registry w action w') : Sound w' := by
  obtain ⟨env, call⟩ := action
  change exec env w call = .ok w' at step
  cases call with
  | write =>
    obtain ⟨_, policy, -, -, -, -, valid, -, -, rfl⟩ := write_ok step
    exact sound.save valid
  | cancel _ vault =>
    obtain ⟨_, policy, hp, -, -, rfl⟩ := cancel_ok step
    have valid := sound vault policy hp
    exact sound.save ⟨valid.coverage, valid.insuredValue, valid.accruedPremium⟩
  | deposit vault amount =>
    change deposit env vault amount w = .ok w' at step
    obtain ⟨policy, hp, _, -, rfl, sum⟩ := deposit_ok step
    have valid := sound vault policy hp
    have accrued := valid.accruedPremium
    have charged := mul_nonneg valid.perEpoch_nonneg (Int.natCast_nonneg
      ((env.sequence - policy.lastPremiumLedger) / epochLedgers))
    refine sound.save ⟨valid.coverage, valid.insuredValue, ?_⟩
    dsimp only
    split_ifs at sum <;> omega
  | withdraw =>
    obtain ⟨r, step⟩ := map_snd_ok_iff.1 step
    obtain ⟨_, _, _, -, -, -, -, valid, -, -, -, rfl⟩ := withdraw_ok sound step
    exact sound.save valid
  | fund =>
    obtain ⟨_, -, -, rfl⟩ := fund_ok step
    exact sound
  | openClaim =>
    obtain ⟨_, _, -, -, -, -, -, rfl⟩ := openClaim_ok step
    exact sound
  | settle =>
    obtain ⟨_, _, -, -, -, -, rfl⟩ := settle_ok step
    exact sound
  | closeClaim =>
    simp only [exec, closeClaim, ok_iff] at step
    obtain ⟨_, -, rfl⟩ := step
    exact sound

theorem initial_backed (init : Initial registry w) : Sound w ∧ Backed w := by
  obtain ⟨_, _, _, h⟩ := init
  simp only [initializeRegistry, ok_iff] at h
  obtain ⟨_, -, _, -, rfl⟩ := h
  exact ⟨fun _ _ h => by simp at h, _, rfl, le_rfl, rfl⟩

/-- The state after a run whose steps all keep the backing is backed, and these are exactly the runs
through backed states only. -/
theorem backed_run_iff {w₀ : World Address} {actions : List (Env registry × Call Address)}
    (init : Initial registry w₀) :
    (Run (Guarded KeepsBacking (Step registry)) w₀ actions w → Backed w) ∧
      (Run (Guarded KeepsBacking (Step registry)) w₀ actions w ↔
        Run (Into Backed (Step registry)) w₀ actions w) :=
  Run.guarded_iff_into Sound (initial_backed init) (fun _ _ _ sound step => sound.step step)
    fun _ _ _ sound backed step => backed_step_iff sound backed step

end Contract

/-! ## Coverage without backing -/

def signedAt (sequence : ℕ) : Env 0 := ⟨sequence, fun a => a != 0, zero_unsigned⟩

/-- The reserve is funded with 100 and a policy of vault 5 is written for all of it. -/
def insured : Outcome Error (World ℕ) := do
  let w ← initializeRegistry (signedAt 0) 1 2 {}
  let w ← exec (signedAt 0) w (.fund 1 100)
  exec (signedAt 0) w (.write 1 5 .selfFunded 100 3650000 10000 [.strategyLoss])

def insuredCalls : List (Env 0 × Call ℕ) :=
  [(signedAt 0, .fund 1 100),
    (signedAt 0, .write 1 5 .selfFunded 100 3650000 10000 [.strategyLoss])]

theorem insured_run {w : World ℕ} (h : insured = .ok w) :
    ∃ w₀, Initial 0 w₀ ∧ Run (Guarded KeepsBacking (Step 0)) w₀ insuredCalls w := by
  obtain ⟨w₀, h₀, h⟩ := bind_ok_iff.1 h
  obtain ⟨_, h₁, h₂⟩ := bind_ok_iff.1 h
  exact ⟨w₀, ⟨signedAt 0, 1, 2, h₀⟩, (Run.nil.snoc ⟨trivial, h₁⟩).snoc ⟨trivial, h₂⟩⟩

/-- With 100 more in the reserve a claim is settled for 100; after an epoch the premium is accrued
and part of it withdrawn while the policy is in force. -/
def backedCalls : List (Env 0 × Call ℕ) :=
  insuredCalls ++ [(signedAt 0, .fund 1 100), (signedAt 0, .openClaim 5 5 .strategyLoss 100),
    (signedAt 0, .settle 1 5 100), (signedAt 17280, .deposit 5 1),
    (signedAt 17280, .withdraw 5 5000)]

theorem insured_backed : ∃ w₀ w, Initial 0 w₀ ∧
    Run (Guarded KeepsBacking (Step 0)) w₀ backedCalls w ∧ Backed w := by
  obtain ⟨w₀, h₀, w, h⟩ : ∃ w₀, initializeRegistry (signedAt 0) 1 2 ({} : World ℕ) = .ok w₀ ∧
      ∃ w, backedCalls.foldlM (execIf (fun w (action : Env 0 × Call ℕ) => KeepsBacking w action)
        fun w action => exec action.1 w action.2) w₀ = .ok w := by
    decide +kernel
  have init : Initial 0 w₀ := ⟨signedAt 0, 1, 2, h₀⟩
  have run : Run (Guarded KeepsBacking (Step 0)) w₀ backedCalls w := by
    refine Run.of_foldlM (fun _ _ _ step => ?_) h
    exact execIf_ok_iff.1 step
  exact ⟨w₀, w, init, run, (backed_run_iff init).1 run⟩

/-- Settling a claim for the whole coverage empties the reserve, and the policy stays in force. -/
theorem settled_not_backed : ∃ w, Reachable (Initial 0) (Step 0) w ∧ ¬ Backed w := by
  obtain ⟨w, hw, w₁, h₁, w₂, h₂, reserve, hr, short⟩ : ∃ w, insured = .ok w ∧
      ∃ w₁, exec (signedAt 0) w (.openClaim 5 5 .strategyLoss 100) = .ok w₁ ∧
      ∃ w₂, exec (signedAt 0) w₁ (.settle 1 5 100) = .ok w₂ ∧ ∃ reserve ∈ w₂.reserve,
        reserve.unclaimedPremium < reserve.outstandingCoverage := by
    decide +kernel
  obtain ⟨w₀, init, run⟩ := insured_run hw
  have free : Run (Step 0) w₀ insuredCalls w := run.mono fun _ _ _ h => h.2
  refine ⟨w₂, ⟨w₀, _, init, (free.snoc (l := (signedAt 0, _)) h₁).snoc (l := (signedAt 0, _)) h₂⟩,
    fun backed => ?_⟩
  exact absurd ((backed_set_iff hr).1 backed).1 (not_le.2 short)

end VaultInsurance
