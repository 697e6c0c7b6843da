import Perigee.StrategyAnalytics.Contract

/-!
# What the risk gate lets through

The gate sums the weights of a correlation group over the whole list, but it compares every position
on its own with the cap of its strategy, never reads the cap that the limits set for all strategies,
and rounds the weighted risk down before it compares it.
-/

namespace StrategyAnalytics

open Soroban

variable {Address : Type} [DecidableEq Address] {this : Address}

/-! ## A list of positions -/

def profileOf (w : World Address) (strategy : Address) : RiskProfile Address :=
  (w.risk.lookup strategy).getD ⟨strategy, 0, 0, 0⟩

def weightWhere (p : Address → Prop) [DecidablePred p] (allocations : List (Allocation Address)) :
    ℕ :=
  ((allocations.filter fun allocation => p allocation.strategy).map Allocation.weightBps).sum

/-- The sum of the weights times the risk scores. -/
def exactRisk (w : World Address) (allocations : List (Allocation Address)) : ℕ :=
  (allocations.map fun allocation =>
    allocation.weightBps * (profileOf w allocation.strategy).riskScore).sum

/-- A list within all limits, taken as a whole. -/
structure Sound (w : World Address) (limits : RiskLimits)
    (allocations : List (Allocation Address)) : Prop where
  strategies : ∀ strategy ∈ allocations.map Allocation.strategy,
    weightWhere (· = strategy) allocations ≤ (profileOf w strategy).maxAllocationBps ∧
      weightWhere (· = strategy) allocations ≤ limits.maxStrategyAllocationBps
  groups : ∀ group, weightWhere (fun strategy => (profileOf w strategy).correlationGroup = group)
    allocations ≤ limits.maxGroupAllocationBps
  risk : exactRisk w allocations ≤ bpsDenominator * limits.maxPortfolioRiskScore

/-- When a list that passes is sound: a strategy that is listed several times is within both caps in
total, no position is over the cap of the limits, and nothing is lost in rounding at the ceiling. -/
def Harmless (w : World Address) (limits : RiskLimits) (allocations : List (Allocation Address)) :
    Prop :=
  (∀ strategy, 1 < (allocations.map Allocation.strategy).count strategy →
    weightWhere (· = strategy) allocations ≤
      min (profileOf w strategy).maxAllocationBps limits.maxStrategyAllocationBps) ∧
  (∀ allocation ∈ allocations, allocation.weightBps ≤ limits.maxStrategyAllocationBps) ∧
  ¬ (exactRisk w allocations / bpsDenominator = limits.maxPortfolioRiskScore ∧
    exactRisk w allocations % bpsDenominator ≠ 0)

/-- No strategy is listed twice, the caps of the listed strategies are within that of the limits,
and either so are their risk scores or the weighted risk is not rounded. -/
structure Disciplined (w : World Address) (limits : RiskLimits)
    (allocations : List (Allocation Address)) : Prop where
  once : (allocations.map Allocation.strategy).Nodup
  caps : ∀ a ∈ allocations,
    (profileOf w a.strategy).maxAllocationBps ≤ limits.maxStrategyAllocationBps
  scores : (∀ a ∈ allocations, (profileOf w a.strategy).riskScore ≤ limits.maxPortfolioRiskScore) ∨
    bpsDenominator ∣ exactRisk w allocations

section Lists

variable {w : World Address} {allocations : List (Allocation Address)} {p : Address → Prop}
  [DecidablePred p]

omit [DecidableEq Address] in
theorem weightWhere_cons (first : Allocation Address) (rest : List (Allocation Address)) :
    weightWhere p (first :: rest) =
      (if p first.strategy then first.weightBps else 0) + weightWhere p rest := by
  unfold weightWhere
  by_cases here : p first.strategy <;> simp [here]

theorem weightWhere_of_count_le_one {allocation : Allocation Address}
    (mem : allocation ∈ allocations)
    (once : (allocations.map Allocation.strategy).count allocation.strategy ≤ 1) :
    weightWhere (· = allocation.strategy) allocations = allocation.weightBps := by
  induction allocations with
  | nil => cases mem
  | cons first rest ih =>
    rw [List.map_cons, List.count_cons] at once
    rw [weightWhere_cons]
    rcases List.mem_cons.1 mem with rfl | mem
    · have others : (rest.map Allocation.strategy).count allocation.strategy = 0 := by
        simpa using once
      have absent : rest.filter (fun other => other.strategy = allocation.strategy) = [] := by
        rw [List.filter_eq_nil_iff]
        intro other there same
        exact List.count_eq_zero.1 others
          (of_decide_eq_true same ▸ List.mem_map_of_mem there)
      rw [if_pos rfl, weightWhere, absent]
      rfl
    · have positive := List.count_pos_iff.2 (List.mem_map_of_mem (f := Allocation.strategy) mem)
      have other : ¬ first.strategy = allocation.strategy := by
        intro same
        simp only [same, beq_self_eq_true, if_true] at once
        omega
      rw [if_neg other, zero_add]
      exact ih mem (by omega)

theorem gather_ok {acc acc' : Gathered Address}
    (h : allocations.foldlM (gather w) acc = .ok acc') :
    (∀ allocation ∈ allocations,
      allocation.weightBps ≤ (profileOf w allocation.strategy).maxAllocationBps ∧
        ∃ profile, w.risk.lookup allocation.strategy = some profile) ∧
    acc'.profiles = acc.profiles ++ allocations.map (fun a => profileOf w a.strategy) ∧
    acc'.weightTotal = acc.weightTotal + weightWhere (fun _ => True) allocations ∧
    acc'.weightedRisk = acc.weightedRisk + exactRisk w allocations := by
  induction allocations generalizing acc with
  | nil =>
    obtain rfl := pure_ok_iff.1 h
    simp [weightWhere, exactRisk]
  | cons first _ ih =>
    rw [List.foldlM_cons, bind_ok_iff] at h
    obtain ⟨_, round, h⟩ := h
    obtain ⟨each, profiles, weight, risk⟩ := ih h
    simp only [gather, loadProfile, ok_iff, not_lt] at round
    obtain ⟨profile, found, _, capped, rfl⟩ := round
    have stored : profileOf w first.strategy = profile := by rw [profileOf, found]; rfl
    simp only [List.forall_mem_cons, stored, List.map_cons, weightWhere_cons, exactRisk,
      List.sum_cons, if_true]
    refine ⟨⟨⟨capped, profile, found⟩, each⟩, by simp [profiles], ?_, ?_⟩
    · rw [weight, add_assoc]
    · rw [risk, exactRisk, add_assoc]

omit [DecidableEq Address] in
theorem groupTotal_eq (f : Address → RiskProfile Address) (group : ℕ)
    (allocations : List (Allocation Address)) :
    groupTotal group ((allocations.map fun a => f a.strategy).zip allocations) =
      weightWhere (fun strategy => (f strategy).correlationGroup = group) allocations := by
  induction allocations with
  | nil => rfl
  | cons first _ ih =>
    rw [weightWhere_cons, ← ih, List.map_cons]
    by_cases here : (f first.strategy).correlationGroup = group <;> simp [here, groupTotal]

end Lists

/-! ## The gate -/

variable {w : World Address} {calls : List (Env this × Call Address)}

def Validated (w : World Address) : Prop :=
  ∀ strategy profile, w.risk.lookup strategy = some profile → profile.riskScore ≤ maxRiskScore

theorem Validated.set {profile : RiskProfile Address} {u : Unit} (validated : Validated w)
    (valid : validateProfile profile.riskScore profile.maxAllocationBps = .ok u)
    (strategy : Address) (stored : RiskProfile Address)
    (found : (w.risk.set profile.strategy profile).lookup strategy = some stored) :
    stored.riskScore ≤ maxRiskScore := by
  simp only [validateProfile, ok_iff, not_lt] at valid
  exact Store.forall_set validated valid.choose_spec.1 strategy stored found

theorem validated_of_run (run : Run Step ({} : World Address) calls w) : Validated w := by
  refine run.invariant (fun strategy profile found => by simp at found) ?_
  rintro _ ⟨_, call⟩ _ validated done
  cases call with
  | initializeAnalytics =>
    simp only [Step, exec, initializeAnalytics, ok_iff] at done
    obtain ⟨_, -, _, -, _, -, rfl⟩ := done
    exact validated
  | setLimits =>
    simp only [Step, exec, setLimits, ok_iff] at done
    obtain ⟨_, -, _, -, rfl⟩ := done
    exact validated
  | registerStrategy =>
    simp only [Step, exec, registerStrategy, ok_iff] at done
    obtain ⟨_, -, _, valid, _, -, _, -, rfl⟩ := done
    exact validated.set valid
  | updateRiskProfile =>
    simp only [Step, exec, updateRiskProfile, ok_iff] at done
    obtain ⟨_, -, _, valid, _, -, rfl⟩ := done
    exact validated.set valid

structure Passed (w : World Address) (limits : RiskLimits)
    (allocations : List (Allocation Address)) : Prop where
  total : weightWhere (fun _ => True) allocations = bpsDenominator
  positions : ∀ allocation ∈ allocations,
    allocation.weightBps ≤ (profileOf w allocation.strategy).maxAllocationBps ∧
      ∃ profile, w.risk.lookup allocation.strategy = some profile
  groups : ∀ group, weightWhere (fun strategy => (profileOf w strategy).correlationGroup = group)
    allocations ≤ limits.maxGroupAllocationBps
  risk : exactRisk w allocations < bpsDenominator * (limits.maxPortfolioRiskScore + 1)

theorem exactRisk_le {bound : ℕ} {allocations : List (Allocation Address)}
    (scores : ∀ a ∈ allocations, (profileOf w a.strategy).riskScore ≤ bound) :
    exactRisk w allocations ≤ weightWhere (fun _ => True) allocations * bound := by
  induction allocations with
  | nil => simp [exactRisk, weightWhere]
  | cons first _ ih =>
    obtain ⟨score, others⟩ := List.forall_mem_cons.1 scores
    rw [weightWhere_cons, add_mul, exactRisk, List.map_cons]
    exact add_le_add (Nat.mul_le_mul_left _ score) (ih others)

theorem Validated.score (validated : Validated w) (strategy : Address) :
    (profileOf w strategy).riskScore ≤ maxRiskScore := by
  unfold profileOf
  cases found : w.risk.lookup strategy with
  | none => exact Nat.zero_le _
  | some => exact validated _ _ found

theorem validateAllocation_passed {limits : RiskLimits} {allocations : List (Allocation Address)}
    {report : AllocationReport} (validated : Validated w) (stored : w.limits = some limits)
    (h : validateAllocation allocations w = .ok report) : Passed w limits allocations := by
  simp only [validateAllocation, loadLimits, stored, ok_iff, not_exists, not_and, not_lt, not_not,
    Option.some.injEq] at h
  obtain ⟨_, rfl, _, -, _, -, _, gathered, _, total, _, groups, _, risk, -⟩ := h
  obtain ⟨each, profiles, weight, weighted⟩ := gather_ok gathered
  simp only [zero_add] at profiles weight weighted
  have all : weightWhere (fun _ => True) allocations = bpsDenominator := weight.symm.trans total
  refine ⟨all, each, fun group => ?_, ?_⟩
  · by_cases listed : ∃ a ∈ allocations, (profileOf w a.strategy).correlationGroup = group
    · obtain ⟨_, mem, rfl⟩ := listed
      rw [profiles] at groups
      rw [← groupTotal_eq]
      exact groups _ (List.mem_map_of_mem mem)
    · have none : allocations.filter (fun a =>
          (profileOf w a.strategy).correlationGroup = group) = [] := by
        rw [List.filter_eq_nil_iff]
        exact fun a mem same => listed ⟨a, mem, of_decide_eq_true same⟩
      simp [weightWhere, none]
  · have bound := exactRisk_le fun a (_ : a ∈ allocations) => validated.score a.strategy
    rw [all] at bound
    simp only [bpsDenominator, maxRiskScore] at bound risk ⊢
    omega

theorem Passed.sound_iff {limits : RiskLimits} {allocations : List (Allocation Address)}
    (passed : Passed w limits allocations) :
    Sound w limits allocations ↔ Harmless w limits allocations := by
  constructor
  · refine fun sound => ⟨fun strategy twice => ?_, fun a mem => ?_, ?_⟩
    · exact le_min_iff.2 (sound.strategies strategy (List.count_pos_iff.1 (by omega)))
    · refine le_trans ?_ (sound.strategies _ (List.mem_map_of_mem mem)).2
      exact List.single_le_sum (fun _ _ => Nat.zero_le _) _
        (List.mem_map_of_mem (List.mem_filter.2 ⟨mem, by simp⟩))
    · have ceiling := sound.risk
      rintro ⟨equal, remains⟩
      simp only [bpsDenominator] at ceiling equal remains
      omega
  · rintro ⟨repeated, capped, exact⟩
    refine ⟨fun strategy mem => ?_, passed.groups, ?_⟩
    · by_cases twice : 1 < (allocations.map Allocation.strategy).count strategy
      · exact le_min_iff.1 (repeated strategy twice)
      · obtain ⟨allocation, there, rfl⟩ := List.mem_map.1 mem
        rw [weightWhere_of_count_le_one there (not_lt.1 twice)]
        exact ⟨(passed.positions allocation there).1, capped allocation there⟩
    · have below := passed.risk
      simp only [bpsDenominator] at below exact ⊢
      omega

theorem Passed.harmless {limits : RiskLimits} {allocations : List (Allocation Address)}
    (passed : Passed w limits allocations) (disciplined : Disciplined w limits allocations) :
    Harmless w limits allocations := by
  refine ⟨fun strategy twice => ?_, fun a mem => ?_, ?_⟩
  · exact absurd (List.nodup_iff_count_le_one.1 disciplined.once strategy) (not_le.2 twice)
  · exact (passed.positions a mem).1.trans (disciplined.caps a mem)
  · rintro ⟨equal, remains⟩
    rcases disciplined.scores with scores | whole
    · have bound := exactRisk_le scores
      rw [passed.total] at bound
      simp only [bpsDenominator] at bound equal remains
      omega
    · exact remains (Nat.mod_eq_zero_of_dvd whole)

/-- A list that passes the gate is within the cap of every group, each of its positions within the
cap of its strategy, and its risk below the next whole score above the ceiling.  It is within all
limits exactly if it is harmless, which a disciplined list is. -/
theorem validated_sound_iff (run : Run Step ({} : World Address) calls w) {limits : RiskLimits}
    {allocations : List (Allocation Address)} {report : AllocationReport}
    (stored : w.limits = some limits) (h : validateAllocation allocations w = .ok report) :
    Passed w limits allocations ∧ (Disciplined w limits allocations → Sound w limits allocations) ∧
      (Sound w limits allocations ↔ Harmless w limits allocations) := by
  have passed := validateAllocation_passed (validated_of_run run) stored h
  exact ⟨passed, fun disciplined => passed.sound_iff.2 (passed.harmless disciplined),
    passed.sound_iff⟩

def signed (call : Call ℕ) : Env 0 × Call ℕ := (⟨0, fun a => a ≠ 0, zero_unsigned⟩, call)

/-! ## Three strategies -/

/-- The weighted risk of the three is at the ceiling. -/
def threeStrategies : List (Env 0 × Call ℕ) :=
  [signed (.initializeAnalytics 1 ⟨50, 4000, 6000, 10000⟩),
    signed (.registerStrategy 1 ⟨5, 60, 4000, 1⟩), signed (.registerStrategy 1 ⟨6, 40, 4000, 2⟩),
    signed (.registerStrategy 1 ⟨7, 50, 3000, 1⟩)]

theorem three_positions_sound : ∃ w, Run Step ({} : World ℕ) threeStrategies w ∧
    Sound w ⟨50, 4000, 6000, 10000⟩ [⟨5, 4000⟩, ⟨6, 4000⟩, ⟨7, 2000⟩] := by
  obtain ⟨w, run, stored, caps, passes, risk⟩ : ∃ w, Run Step ({} : World ℕ) threeStrategies w ∧
      w.limits = some ⟨50, 4000, 6000, 10000⟩ ∧
      (∀ a ∈ [⟨5, 4000⟩, ⟨6, 4000⟩, (⟨7, 2000⟩ : Allocation ℕ)],
        (profileOf w a.strategy).maxAllocationBps ≤ 4000) ∧
      validateAllocation [⟨5, 4000⟩, ⟨6, 4000⟩, ⟨7, 2000⟩] w = .ok ⟨50, 4000, 3⟩ ∧
      exactRisk w [⟨5, 4000⟩, ⟨6, 4000⟩, ⟨7, 2000⟩] = 500000 :=
    exists_run (fun _ _ _ => id) (by decide +kernel)
  exact ⟨w, run, (validated_sound_iff run stored passes).2.1
    ⟨by decide, caps, .inr (risk ▸ by decide)⟩⟩

/-! ## Two strategies -/

/-- Strategy `5` scores just above the ceiling and `6` at it; `5` may hold six tenths of the book,
and a default cap allows a strategy a tenth. -/
def twoStrategies : List (Env 0 × Call ℕ) :=
  [signed (.initializeAnalytics 1 ⟨50, 1000, 10000, 10000⟩),
    signed (.registerStrategy 1 ⟨5, 51, 6000, 1⟩),
    signed (.registerStrategy 1 ⟨6, 50, 10000, 2⟩)]

/-- Strategy `5` is listed twice and passes with all but one of the ten thousand parts, over its own
cap and the default one, and the exact risk is above the ceiling. -/
theorem overweight_passes : ∃ w report, Run Step ({} : World ℕ) twoStrategies w ∧
    w.limits = some ⟨50, 1000, 10000, 10000⟩ ∧ (profileOf w 5).maxAllocationBps = 6000 ∧
    validateAllocation [⟨5, 5000⟩, ⟨5, 4999⟩, ⟨6, 1⟩] w = .ok report ∧
    weightWhere (· = 5) [⟨5, 5000⟩, ⟨5, 4999⟩, ⟨6, 1⟩] = 9999 ∧
    ¬ exactRisk w [⟨5, 5000⟩, ⟨5, 4999⟩, ⟨6, 1⟩] ≤ bpsDenominator * 50 := by
  obtain ⟨w, run, stored, cap, passes, risk⟩ : ∃ w, Run Step ({} : World ℕ) twoStrategies w ∧
      w.limits = some ⟨50, 1000, 10000, 10000⟩ ∧ (profileOf w 5).maxAllocationBps = 6000 ∧
      validateAllocation [⟨5, 5000⟩, ⟨5, 4999⟩, ⟨6, 1⟩] w = .ok ⟨50, 5000, 3⟩ ∧
      ¬ exactRisk w [⟨5, 5000⟩, ⟨5, 4999⟩, ⟨6, 1⟩] ≤ bpsDenominator * 50 :=
    exists_run (fun _ _ _ => id) (by decide +kernel)
  exact ⟨w, _, run, stored, cap, passes, by decide, risk⟩

end StrategyAnalytics
