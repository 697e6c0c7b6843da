import Perigee.Soroban.Index
import Perigee.Soroban.Run
import Perigee.Soroban.Tokens

/-!
# Composite strategies

A composite has children with weights that sum to the whole; a child that is registered as a
composite is expanded, any other is a leaf.  The file follows
`contracts/strategy_composability/src/lib.rs`.  `expand` counts the levels that are left below the
bound, where the source counts the depth up to it.
-/

namespace StrategyComposability

open Soroban

def bpsDenominator : ℕ := 10000

def maxDepth : ℕ := 4

def maxChildren : ℕ := 16

def maxFeeBps : ℕ := 2000

inductive Error where
  | notInitialized
  | alreadyInitialized
  | unauthorized
  | strategyNotFound
  | strategyAlreadyRegistered
  | invalidChildren
  | invalidWeight
  | maxDepthExceeded
  | selfReference
  | tooManyChildren
  | cyclicReference
  | invalidAmount
  | mathOverflow
  deriving DecidableEq

structure ChildWeight (Address : Type) where
  child : Address
  weightBps : ℕ
  deriving DecidableEq

structure CompositeStrategy (Address : Type) where
  address : Address
  children : List (ChildWeight Address)
  feeBps : ℕ
  depth : ℕ
  deriving DecidableEq

structure AllocationLeaf (Address : Type) where
  strategy : Address
  amount : ℤ
  deriving DecidableEq

structure World (Address : Type) where
  admin : Option Address := none
  compositeCount : ℕ := 0
  composites : Store Address (CompositeStrategy Address) := ∅

abbrev Result (α : Type) := Outcome Error α

section Contract

variable {Address : Type} [DecidableEq Address] {this : Address}

/-! ## Helpers -/

def requireAdmin (env : Env this) (admin : Address) (w : World Address) : Result Unit := do
  let stored ← okOr w.admin .notInitialized
  reject (admin ≠ stored) .unauthorized
  requireAuth env admin

/-- The loop of `validate_children`; `earlier` are the children before. -/
def checkChildren (parent : Address) : List Address → List (ChildWeight Address) → Result Unit
  | _, [] => pure ()
  | earlier, child :: rest => do
    reject (child.weightBps = 0 ∨ bpsDenominator < child.weightBps) .invalidWeight
    reject (child.child = parent) .selfReference
    reject (child.child ∈ earlier) .invalidChildren
    checkChildren parent (earlier ++ [child.child]) rest

def validateChildren (parent : Address) (children : List (ChildWeight Address)) : Result Unit := do
  reject (children.length = 0 ∨ maxChildren < children.length) .invalidChildren
  checkChildren parent [] children
  reject ((children.map ChildWeight.weightBps).sum ≠ bpsDenominator) .invalidChildren

def loadComposite (address : Address) (w : World Address) : Result (CompositeStrategy Address) :=
  okOr (w.composites.lookup address) .strategyNotFound

/-- The leaves below an address and the amount that reaches each.  `visited` is the path to the
address, and `levels` is how many levels are left: none at a depth over the maximum. -/
def expand (w : World Address) :
    ℕ → Address → ℤ → List Address → Result (List (AllocationLeaf Address))
  | 0, _, _, _ => .error (.err .maxDepthExceeded)
  | levels + 1, address, total, visited => do
    reject (address ∈ visited) .cyclicReference
    match w.composites.lookup address with
    | none => pure [⟨address, total⟩]
    | some composite => do
      let leaves ← composite.children.mapM fun child => do
        let product ← checkedI128 (total * child.weightBps) .mathOverflow
        expand w levels child.child (product.tdiv bpsDenominator) (visited ++ [address])
      pure leaves.flatten

/-! ## Entry points -/

def initializeRegistry (env : Env this) (admin : Address) (w : World Address) :
    Result (World Address) := do
  reject (w.admin.isSome = true) .alreadyInitialized
  requireAuth env admin
  pure { w with admin := some admin, compositeCount := 0 }

def registerComposite (env : Env this) (admin address : Address)
    (children : List (ChildWeight Address)) (feeBps : ℕ) (w : World Address) :
    Result (World Address) := do
  requireAdmin env admin w
  reject (w.composites.has address = true) .strategyAlreadyRegistered
  reject (maxFeeBps < feeBps) .invalidWeight
  validateChildren address children
  let count ← u32 (w.compositeCount + 1)
  pure { w with
    composites := w.composites.set address ⟨address, children, feeBps, 1⟩
    compositeCount := count }

def setChildren (env : Env this) (admin address : Address)
    (children : List (ChildWeight Address)) (w : World Address) : Result (World Address) := do
  requireAdmin env admin w
  let composite ← loadComposite address w
  validateChildren address children
  pure { w with composites := w.composites.set address { composite with children } }

def resolveAllocation (address : Address) (total : ℤ) (w : World Address) :
    Result (List (AllocationLeaf Address)) := do
  reject (total < 0) .invalidAmount
  expand w (maxDepth + 1) address total []

/-! ## Runs -/

inductive Call (Address : Type) where
  | initializeRegistry (admin : Address)
  | registerComposite (admin address : Address) (children : List (ChildWeight Address))
      (feeBps : ℕ)
  | setChildren (admin address : Address) (children : List (ChildWeight Address))

def exec (w : World Address) : Env this × Call Address → Result (World Address)
  | (env, .initializeRegistry admin) => initializeRegistry env admin w
  | (env, .registerComposite admin address children feeBps) =>
    registerComposite env admin address children feeBps w
  | (env, .setChildren admin address children) => setChildren env admin address children w

def Step (w : World Address) (call : Env this × Call Address) (w' : World Address) : Prop :=
  exec w call = .ok w'

def Fresh (w : World Address) : Prop := w.composites = ∅

end Contract

end StrategyComposability
