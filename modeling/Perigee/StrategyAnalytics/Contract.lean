import Perigee.Soroban.Index
import Perigee.Soroban.Run
import Perigee.Soroban.Tokens

/-!
# The risk framework

A registry keeps a risk profile for each strategy and limits for the whole portfolio, and
`validateAllocation` is the gate that a vault asks before it deploys.  The file follows
`contracts/strategy_analytics/src/lib.rs`.
-/

namespace StrategyAnalytics

open Soroban

def bpsDenominator : ℕ := 10000

def maxRiskScore : ℕ := 100

def maxStrategies : ℕ := 32

inductive Error where
  | notInitialized
  | alreadyInitialized
  | unauthorized
  | strategyNotRegistered
  | strategyAlreadyRegistered
  | invalidRiskScore
  | invalidAllocation
  | allocationExceedsLimit
  | groupExceedsLimit
  | portfolioRiskTooHigh
  | tooManyStrategies
  | invalidAmount
  | mathOverflow
  | notEnoughSamples
  | divisionByZero
  deriving DecidableEq

structure RiskLimits where
  maxPortfolioRiskScore : ℕ
  maxStrategyAllocationBps : ℕ
  maxGroupAllocationBps : ℕ
  stressToleranceBps : ℕ
  deriving DecidableEq

structure RiskProfile (Address : Type) where
  strategy : Address
  riskScore : ℕ
  maxAllocationBps : ℕ
  correlationGroup : ℕ
  deriving DecidableEq

structure Allocation (Address : Type) where
  strategy : Address
  weightBps : ℕ
  deriving DecidableEq

structure AllocationReport where
  portfolioRiskScore : ℕ
  largestPositionBps : ℕ
  strategyCount : ℕ
  deriving DecidableEq

structure World (Address : Type) where
  admin : Option Address := none
  limits : Option RiskLimits := none
  strategyCount : Option ℕ := none
  risk : Store Address (RiskProfile Address) := ∅

abbrev Result (α : Type) := Outcome Error α

variable {Address : Type} [DecidableEq Address] {this : Address}

/-! ## Helpers -/

def requireAdmin (env : Env this) (admin : Address) (w : World Address) : Result Unit := do
  let stored ← okOr w.admin .notInitialized
  reject (admin ≠ stored) .unauthorized
  requireAuth env admin

def loadLimits (w : World Address) : Result RiskLimits := okOr w.limits .notInitialized

def loadProfile (strategy : Address) (w : World Address) : Result (RiskProfile Address) :=
  okOr (w.risk.lookup strategy) .strategyNotRegistered

def validateLimits (limits : RiskLimits) : Result Unit := do
  reject (maxRiskScore < limits.maxPortfolioRiskScore) .invalidRiskScore
  reject (bpsDenominator < limits.maxStrategyAllocationBps ∨
    bpsDenominator < limits.maxGroupAllocationBps ∨
    bpsDenominator < limits.stressToleranceBps) .invalidAllocation

def validateProfile (riskScore maxAllocationBps : ℕ) : Result Unit := do
  reject (maxRiskScore < riskScore) .invalidRiskScore
  reject (bpsDenominator < maxAllocationBps) .invalidAllocation

/-! ## Setup and profiles -/

def initializeAnalytics (env : Env this) (admin : Address) (limits : RiskLimits)
    (w : World Address) : Result (World Address) := do
  reject (w.admin.isSome = true) .alreadyInitialized
  validateLimits limits
  requireAuth env admin
  pure { w with admin := some admin, limits := some limits, strategyCount := some 0 }

def setLimits (env : Env this) (admin : Address) (limits : RiskLimits) (w : World Address) :
    Result (World Address) := do
  requireAdmin env admin w
  validateLimits limits
  pure { w with limits := some limits }

def registerStrategy (env : Env this) (admin : Address) (profile : RiskProfile Address)
    (w : World Address) : Result (World Address) := do
  requireAdmin env admin w
  validateProfile profile.riskScore profile.maxAllocationBps
  reject (w.risk.has profile.strategy = true) .strategyAlreadyRegistered
  let count := w.strategyCount.getD 0
  reject (maxStrategies ≤ count) .tooManyStrategies
  pure { w with
    risk := w.risk.set profile.strategy profile
    strategyCount := some (count + 1) }

def updateRiskProfile (env : Env this) (admin : Address) (profile : RiskProfile Address)
    (w : World Address) : Result (World Address) := do
  requireAdmin env admin w
  validateProfile profile.riskScore profile.maxAllocationBps
  let _ ← loadProfile profile.strategy w
  pure { w with risk := w.risk.set profile.strategy profile }

/-! ## Allocation validation -/

structure Gathered (Address : Type) where
  profiles : List (RiskProfile Address) := []
  weightTotal : ℕ := 0
  largestPosition : ℕ := 0
  weightedRisk : ℕ := 0

/-- One round of the first loop. -/
def gather (w : World Address) (acc : Gathered Address) (allocation : Allocation Address) :
    Result (Gathered Address) := do
  let profile ← loadProfile allocation.strategy w
  reject (profile.maxAllocationBps < allocation.weightBps) .allocationExceedsLimit
  pure {
    profiles := acc.profiles ++ [profile]
    weightTotal := acc.weightTotal + allocation.weightBps
    largestPosition := max acc.largestPosition allocation.weightBps
    weightedRisk := acc.weightedRisk + allocation.weightBps * profile.riskScore }

def groupTotal (group : ℕ) (positions : List (RiskProfile Address × Allocation Address)) : ℕ :=
  ((positions.filter fun position => position.1.correlationGroup = group).map
    fun position => position.2.weightBps).sum

def validateAllocation (allocations : List (Allocation Address)) (w : World Address) :
    Result AllocationReport := do
  let limits ← loadLimits w
  let count := allocations.length
  reject (count = 0) .invalidAllocation
  reject (maxStrategies < count) .tooManyStrategies
  let acc ← allocations.foldlM (gather w) {}
  reject (acc.weightTotal ≠ bpsDenominator) .invalidAllocation
  let positions := acc.profiles.zip allocations
  reject (∃ profile ∈ acc.profiles,
    limits.maxGroupAllocationBps < groupTotal profile.correlationGroup positions) .groupExceedsLimit
  let portfolioRiskScore := acc.weightedRisk / bpsDenominator % 2 ^ 32
  reject (limits.maxPortfolioRiskScore < portfolioRiskScore) .portfolioRiskTooHigh
  pure ⟨portfolioRiskScore, acc.largestPosition, count⟩

/-! ## Runs -/

inductive Call (Address : Type) where
  | initializeAnalytics (admin : Address) (limits : RiskLimits)
  | setLimits (admin : Address) (limits : RiskLimits)
  | registerStrategy (admin : Address) (profile : RiskProfile Address)
  | updateRiskProfile (admin : Address) (profile : RiskProfile Address)

def exec (w : World Address) : Env this × Call Address → Result (World Address)
  | (env, .initializeAnalytics admin limits) => initializeAnalytics env admin limits w
  | (env, .setLimits admin limits) => setLimits env admin limits w
  | (env, .registerStrategy admin profile) => registerStrategy env admin profile w
  | (env, .updateRiskProfile admin profile) => updateRiskProfile env admin profile w

def Step (w : World Address) (call : Env this × Call Address) (w' : World Address) : Prop :=
  exec w call = .ok w'

end StrategyAnalytics
