import Perigee.Soroban.Outcome

/-!
# Dynamic fees

The fee of a pool follows its utilization, the volatility and the fee of a competitor.  The file
follows the computation of `contracts/dynamic_fees/src/lib.rs`.  The fee is a `u64` until it is cut
to 32 bits for the last clamp, so that a fee of `2 ^ 32` or more may come out as a small one.
-/

namespace DynamicFees

open Soroban

inductive Error where
  | invalidConfig
  | invalidInput

structure DynamicFeeConfig where
  baseFeeBps : UInt32
  minFeeBps : UInt32
  maxFeeBps : UInt32
  utilizationWeightBps : UInt32
  volatilityWeightBps : UInt32
  maxUndercutBps : UInt32
  maxPremiumBps : UInt32

structure FeeSignals where
  utilizationBps : UInt32
  volatilityBps : UInt32
  competitorFeeBps : UInt32
  competitorEnabled : Bool

structure FeeQuote where
  feeBps : UInt32
  utilizationComponent : UInt32
  volatilityComponent : UInt32
  afterCompetitorClamp : UInt32

variable {c : DynamicFeeConfig} {s s' : FeeSignals} {q q' : FeeQuote}

def validateConfig (c : DynamicFeeConfig) : Outcome Error Unit := do
  reject (c.minFeeBps > c.maxFeeBps) .invalidConfig
  reject (c.baseFeeBps > c.maxFeeBps ∨ c.maxFeeBps > 10000) .invalidConfig

def clamp (v lo hi : UInt32) : UInt32 := if v < lo then lo else if v > hi then hi else v

/-- The saturating operations of `u64`. -/
def saturating (n : ℕ) : ℕ := min n (2 ^ 64 - 1)

def component (weight signal : UInt32) : ℕ := saturating (weight.toNat * signal.toNat) / 10000

/-- The fee as a `u64`, within the bounds that the competitor sets. -/
def fee (c : DynamicFeeConfig) (s : FeeSignals) : ℕ :=
  let fee := saturating (saturating (c.baseFeeBps.toNat +
    component c.utilizationWeightBps s.utilizationBps) +
      component c.volatilityWeightBps s.volatilityBps)
  if s.competitorEnabled then
    let floor := s.competitorFeeBps.toNat - c.maxUndercutBps.toNat
    let ceil := saturating (s.competitorFeeBps.toNat + c.maxPremiumBps.toNat)
    if fee < floor then floor else if fee > ceil then ceil else fee
  else fee

def computeDynamicFee (c : DynamicFeeConfig) (s : FeeSignals) : Outcome Error FeeQuote := do
  reject (s.utilizationBps > 10000) .invalidInput
  pure {
    feeBps := clamp (.ofNat (fee c s)) c.minFeeBps c.maxFeeBps
    utilizationComponent := .ofNat (component c.utilizationWeightBps s.utilizationBps)
    volatilityComponent := .ofNat (component c.volatilityWeightBps s.volatilityBps)
    afterCompetitorClamp := .ofNat (fee c s) }

/-! ## The fee against the exact one -/

/-- Cutting the fee to 32 bits keeps it, or leaves the maximum to pay. -/
def Kept (c : DynamicFeeConfig) (s : FeeSignals) : Prop :=
  fee c s < 2 ^ 32 ∨ c.maxFeeBps.toNat ≤ max c.minFeeBps.toNat (fee c s % 2 ^ 32)

theorem product_le (weight signal : UInt32) :
    weight.toNat * signal.toNat ≤ (2 ^ 32 - 1) * (2 ^ 32 - 1) :=
  Nat.mul_le_mul (Nat.le_pred_of_lt weight.toNat_lt) (Nat.le_pred_of_lt signal.toNat_lt)

theorem component_eq (weight signal : UInt32) :
    component weight signal = weight.toNat * signal.toNat / 10000 := by
  rw [component, saturating, min_eq_left ((product_le weight signal).trans (by decide))]

theorem component_mono (weight : UInt32) {signal signal' : UInt32} (le : signal ≤ signal') :
    component weight signal ≤ component weight signal' := by
  rw [component_eq, component_eq]
  exact Nat.div_le_div_right (Nat.mul_le_mul_left _ (UInt32.le_iff_toNat_le.1 le))

theorem toNat_pred {x : UInt32} (positive : x ≠ 0) : (x - 1).toNat + 1 = x.toNat := by
  have nonzero : x.toNat ≠ 0 := fun h => positive (UInt32.toNat_inj.1 h)
  have small := x.toNat_lt
  rw [UInt32.toNat_sub, UInt32.toNat_one]
  omega

theorem component_pred (weight : UInt32) {signal : UInt32} (positive : signal ≠ 0) :
    component weight signal ≤ component weight (signal - 1) + 429497 := by
  have small := weight.toNat_lt
  rw [component_eq, component_eq, ← toNat_pred positive, Nat.mul_succ]
  omega

theorem fee_le_add {a b : ℕ}
    (first : component c.utilizationWeightBps s.utilizationBps ≤
      component c.utilizationWeightBps s'.utilizationBps + a)
    (second : component c.volatilityWeightBps s.volatilityBps ≤
      component c.volatilityWeightBps s'.volatilityBps + b)
    (competitor : s.competitorFeeBps = s'.competitorFeeBps)
    (enabled : s.competitorEnabled = s'.competitorEnabled) :
    fee c s ≤ fee c s' + (a + b) := by
  have small := s'.competitorFeeBps.toNat_lt
  have bounds : s'.competitorFeeBps.toNat - c.maxUndercutBps.toNat ≤
      saturating (s'.competitorFeeBps.toNat + c.maxPremiumBps.toNat) := by
    unfold saturating
    omega
  have sums : saturating (saturating (c.baseFeeBps.toNat +
        component c.utilizationWeightBps s.utilizationBps) +
          component c.volatilityWeightBps s.volatilityBps) ≤
      saturating (saturating (c.baseFeeBps.toNat +
        component c.utilizationWeightBps s'.utilizationBps) +
          component c.volatilityWeightBps s'.volatilityBps) + (a + b) := by
    unfold saturating
    omega
  simp only [fee, competitor, enabled]
  split_ifs <;> omega

/-- The signals are at most those of `s'`, with the same competitor. -/
structure Lower (s s' : FeeSignals) : Prop where
  utilization : s.utilizationBps ≤ s'.utilizationBps
  volatility : s.volatilityBps ≤ s'.volatilityBps
  competitor : s.competitorFeeBps = s'.competitorFeeBps
  enabled : s.competitorEnabled = s'.competitorEnabled

theorem Lower.fee_le (lower : Lower s s') : fee c s ≤ fee c s' :=
  fee_le_add (a := 0) (b := 0) (component_mono _ lower.utilization)
    (component_mono _ lower.volatility) lower.competitor lower.enabled

/-- One unit less of either signal lowers the fee by at most 429497. -/
theorem exists_pred {n : ℕ}
    (total : s'.utilizationBps.toNat + s'.volatilityBps.toNat = n + 1) :
    ∃ s, Lower s s' ∧ fee c s' ≤ fee c s + 429497 ∧
      s.utilizationBps.toNat + s.volatilityBps.toNat = n := by
  have pred_le {x : UInt32} (positive : x ≠ 0) : x - 1 ≤ x :=
    UInt32.le_iff_toNat_le.2 ((Nat.le_succ _).trans (toNat_pred positive).le)
  by_cases quiet : s'.volatilityBps = 0
  · have positive : s'.utilizationBps ≠ 0 := by
      intro idle
      simp [quiet, idle] at total
    have near : fee c s' ≤
        fee c { s' with utilizationBps := s'.utilizationBps - 1 } + (429497 + 0) :=
      fee_le_add (component_pred _ positive) (Nat.le_refl _) rfl rfl
    have := toNat_pred positive
    exact ⟨{ s' with utilizationBps := s'.utilizationBps - 1 },
      ⟨pred_le positive, UInt32.le_refl _, rfl, rfl⟩, by omega, by dsimp only; omega⟩
  · have near : fee c s' ≤
        fee c { s' with volatilityBps := s'.volatilityBps - 1 } + (0 + 429497) :=
      fee_le_add (Nat.le_refl _) (component_pred _ quiet) rfl rfl
    have := toNat_pred quiet
    exact ⟨{ s' with volatilityBps := s'.volatilityBps - 1 },
      ⟨UInt32.le_refl _, pred_le quiet, rfl, rfl⟩, by omega, by dsimp only; omega⟩

/-- One unit of a signal moves the fee by less than `2 ^ 32 - 10000`, so that below signals with a
fee of 33 bits there are some with a fee of 32 bits above 10000. -/
theorem exists_lower (large : 2 ^ 32 ≤ fee c s') :
    ∃ s, Lower s s' ∧ 10000 ≤ fee c s ∧ fee c s < 2 ^ 32 := by
  -- by induction on the sum of the two signals, taking one unit off either
  induction total : s'.utilizationBps.toNat + s'.volatilityBps.toNat generalizing s' with
  | zero =>
    have base := c.baseFeeBps.toNat_lt
    have competitor := s'.competitorFeeBps.toNat_lt
    have none : s'.utilizationBps.toNat = 0 ∧ s'.volatilityBps.toNat = 0 := by omega
    simp only [fee, component, none.1, none.2, mul_zero, saturating] at large
    split_ifs at large <;> omega
  | succ n ih =>
    obtain ⟨s₁, lower, near, sum⟩ := exists_pred total (c := c)
    by_cases more : 2 ^ 32 ≤ fee c s₁
    · obtain ⟨s, below, fits⟩ := ih more sum
      exact ⟨s, ⟨UInt32.le_trans below.1 lower.1, UInt32.le_trans below.2 lower.2,
        below.3.trans lower.3, below.4.trans lower.4⟩, fits⟩
    · exact ⟨s₁, lower, by omega, by omega⟩

theorem clamp_toNat {v lo hi : UInt32} (le : lo ≤ hi) :
    (clamp v lo hi).toNat = min hi.toNat (max lo.toNat v.toNat) := by
  rw [UInt32.le_iff_toNat_le] at le
  unfold clamp
  simp only [UInt32.lt_iff_toNat_lt]
  split_ifs <;> omega

theorem computeDynamicFee_ok (accepted : validateConfig c = .ok ())
    (h : computeDynamicFee c s = .ok q) :
    c.minFeeBps.toNat ≤ c.maxFeeBps.toNat ∧ c.maxFeeBps.toNat ≤ 10000 ∧
      q.feeBps.toNat = min c.maxFeeBps.toNat (max c.minFeeBps.toNat (fee c s % 2 ^ 32)) := by
  simp only [validateConfig, ok_iff, not_or, UInt32.not_lt]
    at accepted
  simp only [computeDynamicFee, ok_iff] at h
  obtain ⟨-, ordered, -, bounded⟩ := accepted
  obtain ⟨-, -, rfl⟩ := h
  refine ⟨UInt32.le_iff_toNat_le.1 ordered, UInt32.le_iff_toNat_le.1 bounded, ?_⟩
  rw [clamp_toNat ordered, UInt32.toNat_ofNat']

/-- The fee is within its bounds.  No lower signals have a higher fee if and only if the cut keeps
it, and without a competitor it is the exact one, clamped, if and only if the cut keeps it. -/
theorem dynamic_fee (accepted : validateConfig c = .ok ()) (h : computeDynamicFee c s = .ok q) :
    (c.minFeeBps ≤ q.feeBps ∧ q.feeBps ≤ c.maxFeeBps) ∧
    ((∀ s₁ q₁, computeDynamicFee c s₁ = .ok q₁ → Lower s₁ s → q₁.feeBps ≤ q.feeBps) ↔
      Kept c s) ∧
    (s.competitorEnabled = false →
      (q.feeBps.toNat = min c.maxFeeBps.toNat (max c.minFeeBps.toNat (c.baseFeeBps.toNat +
          c.utilizationWeightBps.toNat * s.utilizationBps.toNat / 10000 +
          c.volatilityWeightBps.toNat * s.volatilityBps.toNat / 10000)) ↔ Kept c s)) := by
  obtain ⟨_, _, value⟩ := computeDynamicFee_ok accepted h
  simp only [UInt32.le_iff_toNat_le]
  refine ⟨by omega, ⟨fun mono => ?_, fun kept s₁ q₁ h₁ lower => ?_⟩, fun disabled => ?_⟩
  · by_cases large : 2 ^ 32 ≤ fee c s
    · obtain ⟨s₁, lower, least, fits⟩ := exists_lower large
      obtain ⟨q₁, h₁⟩ : ∃ q₁, computeDynamicFee c s₁ = .ok q₁ := by
        simp only [computeDynamicFee, ok_iff, UInt32.not_lt] at h ⊢
        exact ⟨_, (), UInt32.le_trans lower.utilization h.choose_spec.1, rfl⟩
      have le := mono s₁ q₁ h₁ lower
      obtain ⟨-, -, value₁⟩ := computeDynamicFee_ok accepted h₁
      exact .inr (by omega)
    · exact .inl (not_le.1 large)
  · obtain ⟨-, -, value₁⟩ := computeDynamicFee_ok accepted h₁
    have mono : fee c s₁ ≤ fee c s := lower.fee_le
    unfold Kept at kept
    omega
  · simp only [value, Kept, fee, disabled, component_eq, saturating, Bool.false_eq_true, if_false]
    omega

def steep : DynamicFeeConfig := ⟨0, 0, 10000, 0, 20000, 0, 0⟩

def volatile (volatilityBps : UInt32) : FeeSignals := ⟨0, volatilityBps, 0, false⟩

theorem steep_fee_rises : Kept steep (volatile 200) ∧
    ∃ q q', computeDynamicFee steep (volatile 100) = .ok q ∧
      computeDynamicFee steep (volatile 200) = .ok q' ∧ q.feeBps ≤ q'.feeBps := by
  have kept : Kept steep (volatile 200) := .inl (by decide)
  exact ⟨kept, _, _, rfl, rfl, (dynamic_fee (s := volatile 200) rfl rfl).2.1.2 kept (volatile 100) _
    rfl ⟨by decide, by decide, rfl, rfl⟩⟩

/-- A volatility of `2 ^ 31` asks for a fee of `2 ^ 32`, and none is left of it. -/
theorem steep_fee_falls : validateConfig steep = .ok () ∧
    (∃ q, computeDynamicFee steep (volatile 100) = .ok q ∧ q.feeBps = 200) ∧
    ∃ q, computeDynamicFee steep (volatile 2147483648) = .ok q ∧ q.feeBps = 0 :=
  ⟨rfl, by decide, by decide⟩

end DynamicFees
