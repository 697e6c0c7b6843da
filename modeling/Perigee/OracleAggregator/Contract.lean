import Perigee.Data.Median
import Perigee.Soroban.Store
import Perigee.Soroban.Timed

/-!
# The oracle aggregator

The aggregator asks a list of price sources, falls back to prices stored before, and returns the
median of the prices that are close to the median of all.  The file follows
`contracts/oracle_aggregator/src/lib.rs`.
-/

namespace OracleAggregator

open Soroban

inductive Error where
  | notEnoughSources
  | notEnoughValidPrices
  | notEnoughReliableSources
  | invalidPrice
  | stalePrice
  | notInitialized
  | alreadyInitialized
  deriving DecidableEq

structure PriceEntry where
  price : ℤ
  /-- The time at which the price was stored. -/
  timestamp : ℕ
  deriving DecidableEq

structure World (Address : Type) where
  initialized : Option Bool := none
  maxStaleness : Option ℕ := none
  sourcePrices : Store Address PriceEntry := ∅

structure Host (Address : Type) where
  timestamp : ℕ
  /-- The answer of a source to `latest_price` when it is asked at a place of the list; a source
  that fails takes the call with it. -/
  latestPrice : ℕ → Address → Option ℤ

abbrev Result (α : Type) := Outcome Error α

/-! ## Prices -/

/-- The loops of `sort_prices`: the pass with number `i` makes `n - i - 1` comparisons. -/
def sortPrices (prices : List ℤ) : List ℤ := Median.bubbleSort prices

def median (prices : List ℤ) : Result ℤ :=
  let mid := prices.length / 2
  if prices.length % 2 = 1 then unwrap prices[mid]?
  else do
    let low ← unwrap prices[mid - 1]?
    let high ← unwrap prices[mid]?
    let sum ← i128 (low + high)
    pure (sum.tdiv 2)

def absDiff (left right : ℤ) : Result ℤ := if right < left then i128 (left - right)
  else i128 (right - left)

def keepClose (median threshold : ℤ) : List ℤ → Result (List ℤ)
  | [] => pure []
  | price :: rest => do
    let diff ← absDiff price median
    let filtered ← keepClose median threshold rest
    pure (if saturateI128 (diff * 100) ≤ threshold then price :: filtered else filtered)

def filterOutliers (prices : List ℤ) (median : ℤ) : Result (List ℤ) :=
  keepClose median (saturateI128 (median * 5)) prices

/-- The part of `aggregate_price` that follows the collection of the prices. -/
def aggregateCollected (prices : List ℤ) : Result ℤ := do
  reject (prices.length < 3) .notEnoughValidPrices
  let sorted := sortPrices prices
  let center ← median sorted
  let filtered ← filterOutliers sorted center
  reject (filtered.length < 3) .notEnoughReliableSources
  median filtered

section Contract

variable {Address : Type} [DecidableEq Address]

/-! ## Entry points -/

def initializeOracle (maxStaleness : ℕ) (w : World Address) : Result (World Address) := do
  reject (w.initialized.isSome = true) .alreadyInitialized
  pure { w with initialized := some true, maxStaleness := some maxStaleness }

def getMaxStaleness (w : World Address) : ℕ := w.maxStaleness.getD 0

def setMaxStaleness (maxStaleness : ℕ) (w : World Address) : World Address :=
  { w with maxStaleness := some maxStaleness }

def submitPrice (host : Host Address) (source : Address) (price : ℤ) (w : World Address) :
    Result (World Address) := do
  reject (price ≤ 0) .invalidPrice
  pure { w with sourcePrices := w.sourcePrices.set source ⟨price, host.timestamp⟩ }

def getStoredPrice (w : World Address) (source : Address) : Option PriceEntry :=
  w.sourcePrices.lookup source

/-- The age is that of the stored price, also when a live price is judged by it. -/
def isPriceFresh (w : World Address) (source : Address) (now maxStaleness : ℕ) : Bool :=
  if maxStaleness = 0 then true
  else match getStoredPrice w source with
    | some entry => now - entry.timestamp ≤ maxStaleness
    | none => true

/-- The loop over the sources: the place in the list, the sources from there on, and the prices
collected so far. -/
def collectPrices (host : Host Address) (maxStaleness : ℕ) :
    ℕ → List Address → List ℤ → World Address → Result (List ℤ × World Address)
  | _, [], prices, w => pure (prices, w)
  | idx, source :: rest, prices, w => do
    let livePrice ← unwrap (host.latestPrice idx source)
    if 0 < livePrice ∧ isPriceFresh w source host.timestamp maxStaleness = true then
      let entry : PriceEntry := ⟨livePrice, host.timestamp⟩
      collectPrices host maxStaleness (idx + 1) rest (prices ++ [livePrice])
        { w with sourcePrices := w.sourcePrices.set source entry }
    else match getStoredPrice w source with
      | some entry =>
        if maxStaleness = 0 ∨ host.timestamp - entry.timestamp ≤ maxStaleness then
          collectPrices host maxStaleness (idx + 1) rest (prices ++ [entry.price]) w
        else collectPrices host maxStaleness (idx + 1) rest prices w
      | none => collectPrices host maxStaleness (idx + 1) rest prices w

def aggregatePrice (host : Host Address) (sources : List Address) (w : World Address) :
    Result (ℤ × World Address) := do
  reject (sources.length < 3) .notEnoughSources
  let (prices, w) ← collectPrices host (getMaxStaleness w) 0 sources [] w
  let price ← aggregateCollected prices
  pure (price, w)

/-! ## Runs -/

inductive Call (Address : Type) where
  | initializeOracle (maxStaleness : ℕ)
  | setMaxStaleness (maxStaleness : ℕ)
  | submitPrice (source : Address) (price : ℤ)
  | aggregatePrice (sources : List Address)

def exec (host : Host Address) (w : World Address) : Call Address → Result (World Address)
  | .initializeOracle maxStaleness => initializeOracle maxStaleness w
  | .setMaxStaleness maxStaleness => pure (setMaxStaleness maxStaleness w)
  | .submitPrice source price => submitPrice host source price w
  | .aggregatePrice sources => Prod.snd <$> aggregatePrice host sources w

structure Action (Address : Type) where
  host : Host Address
  call : Call Address

def Action.time (action : Action Address) : ℕ := action.host.timestamp

def perform (w : World Address) (action : Action Address) : Result (World Address) :=
  exec action.host w action.call

def Step (w : World Address) (action : Action Address) (w' : World Address) : Prop :=
  perform w action = .ok w'

end Contract

end OracleAggregator
