import Perigee.Soroban.Store
import Perigee.Soroban.Tokens
import Perigee.Soroban.Run

/-!
# The basket vault contract

A basket holds several assets at target weights, in basis points.  The file follows
`contracts/basket_vault/src/lib.rs`; loops over the components of a basket are folds over their
indices.
-/

namespace BasketVault

open Soroban

def bpsDenominator : ℤ := 10000

def maxBasketAssets : ℕ := 16

inductive Error where
  | notInitialized
  | alreadyInitialized
  | unauthorized
  | basketNotFound
  | basketExists
  | basketFull
  | assetAlreadyInBasket
  | emptyBasket
  | zeroAmount
  | weightsDoNotSum
  | weightTooLarge
  | tooManyAssets
  | insufficientBasketBalance
  | withinDeadband
  | mathOverflow
  | divideByZero
  deriving DecidableEq

structure BasketConfig where
  baseBps : ℤ
  maxWeightBps : ℤ
  driftToleranceBps : ℤ
  maxAssets : ℕ
  deriving DecidableEq

structure Component (Address : Type) where
  asset : Address
  weightBps : ℤ
  price : ℤ
  balance : ℤ
  deriving DecidableEq

structure Basket (Address : Type) where
  id : ℕ
  manager : Address
  config : BasketConfig
  createdLedger : ℕ
  totalHeld : ℤ
  rebalanceCount : ℕ
  deriving DecidableEq

structure World (Address : Type) where
  admin : Option Address := none
  globalConfig : Option BasketConfig := none
  basketCount : Option ℕ := none
  baskets : Store ℕ (Basket Address) := ∅
  componentCounts : Store ℕ ℕ := ∅
  components : Store (ℕ × ℕ) (Component Address) := ∅

/-- `amount * bps / 10 000`, rounded down on amounts that are not negative. -/
def mulBpsFloor (amount bps : ℤ) : Outcome Error ℤ := do
  let product ← checkedI128 (amount * bps) .mathOverflow
  divI128 product bpsDenominator

section Contract

variable {Address : Type} [DecidableEq Address] {this : Address} (w : World Address)

def loadGlobalConfig : Outcome Error BasketConfig :=
  okOr w.globalConfig .notInitialized

def loadBasket (basket : ℕ) : Outcome Error (Basket Address) :=
  okOr (w.baskets.lookup basket) .basketNotFound

variable (env : Env this)

def requireAdmin (caller : Address) (w : World Address) : Outcome Error Unit := do
  let admin ← okOr w.admin .notInitialized
  reject (caller ≠ admin) .unauthorized
  requireAuth env caller

def managed (manager : Address) (basket : ℕ) (w : World Address) :
    Outcome Error (Basket Address) := do
  let record ← loadBasket w basket
  reject (manager ≠ record.manager) .unauthorized
  requireAuth env manager
  pure record

def getComponent (basket index : ℕ) : Outcome Error (Component Address) :=
  okOr (w.components.lookup (basket, index)) .emptyBasket

def componentCount (basket : ℕ) : ℕ := w.componentCounts.getD basket 0

def occupied (basket : ℕ) : Outcome Error ℕ := do
  reject (componentCount w basket = 0) .emptyBasket
  pure (componentCount w basket)

/-! ## Baskets and components -/

def initializeBaskets (admin : Address) (config : BasketConfig)
    (w : World Address) : Outcome Error (World Address) := do
  reject (w.admin.isSome = true) .alreadyInitialized
  reject (config.baseBps ≠ bpsDenominator) .weightsDoNotSum
  reject (maxBasketAssets < config.maxAssets ∨ config.maxAssets = 0) .tooManyAssets
  requireAuth env admin
  pure { w with admin := some admin, globalConfig := some config, basketCount := some 0 }

def createBasket (manager : Address) (w : World Address) : Outcome Error (ℕ × World Address) := do
  let config ← loadGlobalConfig w
  requireAuth env manager
  let id := w.basketCount.getD 0
  reject (maxBasketAssets < id) .basketFull
  let basketCount ← u32 (id + 1)
  pure (id, { w with
    baskets := w.baskets.set id
      { id, manager, config, createdLedger := env.sequence, totalHeld := 0, rebalanceCount := 0 }
    basketCount := some basketCount
    componentCounts := w.componentCounts.set id 0 })

/-- Refuse an asset that one of the first `count` components has. -/
def rejectDuplicate (basket count : ℕ) (asset : Address) : Outcome Error Unit :=
  (List.range count).foldlM (fun _ index => do
    let existing ← getComponent w basket index
    reject (existing.asset = asset) .assetAlreadyInBasket) ()

/-- Add a component.  Its weight is compared with the cap on a single weight only. -/
def addComponent (manager : Address) (basket : ℕ) (asset : Address)
    (weightBps price : ℤ) (w : World Address) : Outcome Error (World Address) := do
  let record ← managed env manager basket w
  reject (price ≤ 0 ∨ weightBps ≤ 0) .zeroAmount
  reject (record.config.maxWeightBps < weightBps) .weightTooLarge
  let count := componentCount w basket
  reject (record.config.maxAssets ≤ count) .basketFull
  rejectDuplicate w basket count asset
  let count' ← u32 (count + 1)
  pure { w with
    components := w.components.set (basket, count) { asset, weightBps, price, balance := 0 }
    componentCounts := w.componentCounts.set basket count' }

def recordHolding (manager : Address) (basket : ℕ) (amount : ℤ)
    (w : World Address) : Outcome Error (World Address) := do
  let record ← managed env manager basket w
  let totalHeld ← checkedI128 (record.totalHeld + amount) .mathOverflow
  pure { w with baskets := w.baskets.set basket { record with totalHeld } }

def setPrice (manager : Address) (basket index : ℕ) (price : ℤ)
    (w : World Address) : Outcome Error (World Address) := do
  let _record ← managed env manager basket w
  reject (price ≤ 0) .zeroAmount
  let component ← getComponent w basket index
  pure { w with components := w.components.set (basket, index) { component with price } }

/-! ## Composite pricing -/

/-- The components owed for `assets` of basket value, each rounded down. -/
def componentsFor (basket : ℕ) (assets : ℤ) (w : World Address) :
    Outcome Error (List (Address × ℤ)) := do
  reject (assets ≤ 0) .zeroAmount
  let count ← occupied w basket
  (List.range count).foldlM (fun out index => do
    let component ← getComponent w basket index
    let amount ← mulBpsFloor assets component.weightBps
    pure (out ++ [(component.asset, amount)])) []

/-! ## Rebalancing -/

/-- The sum of the target weights, each within the cap on a single weight. -/
def sumWeights (maxWeightBps : ℤ) (targetWeights : List ℤ) (count : ℕ) : Outcome Error ℤ :=
  (List.range count).foldlM (fun weightSum index => do
    let weight := targetWeights.getD index 0
    reject (weight < 0 ∨ maxWeightBps < weight) .weightTooLarge
    checkedI128 (weightSum + weight) .mathOverflow) 0

/-- The value that a rebalance moves: the distance of every balance from its target. -/
def sumMovement (basket : ℕ) (held : ℤ) (targetWeights : List ℤ) (count : ℕ) : Outcome Error ℤ :=
  (List.range count).foldlM (fun movement index => do
    let current ← getComponent w basket index
    let target ← mulBpsFloor held (targetWeights.getD index 0)
    let delta ← checkedI128 (target - current.balance) .mathOverflow
    let size ← i128 |delta|
    checkedI128 (movement + size) .mathOverflow) 0

def writeWeight (basket : ℕ) (targetWeights : List ℤ) (w : World Address) (index : ℕ) :
    Outcome Error (World Address) := do
  let component ← getComponent w basket index
  pure { w with
    components := w.components.set (basket, index)
      { component with weightBps := targetWeights.getD index 0 } }

/-- Replace the weights of a basket.  The deadband is not consulted. -/
def rebalanceTo (manager : Address) (basket : ℕ) (targetWeights : List ℤ)
    (w : World Address) : Outcome Error (World Address) := do
  let record ← managed env manager basket w
  let count ← occupied w basket
  reject (targetWeights.length ≠ count) .weightsDoNotSum
  let weightSum ← sumWeights record.config.maxWeightBps targetWeights count
  reject (weightSum ≠ bpsDenominator) .weightsDoNotSum
  let held := record.totalHeld
  reject (held ≤ 0) .insufficientBasketBalance
  let movement ← sumMovement w basket held targetWeights count
  reject (held < movement) .insufficientBasketBalance
  let w ← (List.range count).foldlM (writeWeight basket targetWeights) w
  let rebalanceCount ← checkedU32 (record.rebalanceCount + 1) .mathOverflow
  pure { w with baskets := w.baskets.set basket { record with rebalanceCount } }

def setGlobalConfig (caller : Address) (config : BasketConfig)
    (w : World Address) : Outcome Error (World Address) := do
  requireAdmin env caller w
  reject (config.maxAssets = 0 ∨ maxBasketAssets < config.maxAssets) .tooManyAssets
  pure { w with globalConfig := some config }

/-! ## The system -/

inductive Call (Address : Type) where
  | createBasket (manager : Address)
  | addComponent (manager : Address) (basket : ℕ) (asset : Address) (weightBps price : ℤ)
  | recordHolding (manager : Address) (basket : ℕ) (amount : ℤ)
  | setPrice (manager : Address) (basket index : ℕ) (price : ℤ)
  | rebalanceTo (manager : Address) (basket : ℕ) (targetWeights : List ℤ)
  | setGlobalConfig (caller : Address) (config : BasketConfig)

def exec (w : World Address) : Call Address → Outcome Error (World Address)
  | .createBasket manager => Prod.snd <$> createBasket env manager w
  | .addComponent manager basket asset weightBps price =>
      addComponent env manager basket asset weightBps price w
  | .recordHolding manager basket amount => recordHolding env manager basket amount w
  | .setPrice manager basket index price => setPrice env manager basket index price w
  | .rebalanceTo manager basket targetWeights => rebalanceTo env manager basket targetWeights w
  | .setGlobalConfig caller config => setGlobalConfig env caller config w

def Step (this : Address) (w : World Address) (action : Env this × Call Address)
    (w' : World Address) : Prop :=
  exec action.1 w action.2 = .ok w'

def Initial (this : Address) (w : World Address) : Prop :=
  ∃ (env : Env this) (admin : Address) (config : BasketConfig),
    initializeBaskets env admin config {} = .ok w

end Contract

end BasketVault
