import Perigee.Soroban.Run

/-!
# The options strategy

The strategy writes covered calls, buys protective puts, settles them and hedges through an options
market, which is another contract.  The file follows `contracts/options_strategy/src/lib.rs`.  A
market is given by what its entry points do to its state; `Faithful` says which of its operations
change the short calls of an account, and how.
-/

namespace OptionsStrategy

open Soroban

def bpsScale : ℤ := 10000

inductive Error where
  | alreadyInitialized
  | notInitialized
  | unauthorized
  | invalidAmount
  | invalidStrike
  | invalidExpiry
  | invalidDelta
  | deltaTooHigh
  | insufficientUnderlying
  | invalidPosition
  | invalidConfiguration
  | invalidPremium
  deriving DecidableEq

inductive Protocol where
  | lyra
  | dopex
  deriving DecidableEq

inductive OptionKind where
  | coveredCall
  | protectivePut
  deriving DecidableEq

structure OptionPosition where
  kind : OptionKind
  amount : ℤ
  strikePrice : ℤ
  expiry : ℕ
  premium : ℤ
  deltaBps : ℤ
  deriving DecidableEq

structure OptionsAccount where
  underlying : ℤ
  shortCalls : ℤ
  longPuts : ℤ
  netDeltaBps : ℤ
  deriving DecidableEq

/-- An options market with states `σ`: an operation that does not return has no result. -/
structure Market (Address σ : Type) where
  writeCoveredCall (underlying strike : Address) (amount strikePrice : ℤ) (expiry : ℕ)
    (account : Address) : σ → Option (OptionPosition × σ)
  buyProtectivePut (underlying strike : Address) (amount strikePrice : ℤ) (expiry : ℕ)
    (premium : ℤ) (account : Address) : σ → Option (OptionPosition × σ)
  settle (kind : OptionKind) (amount : ℤ) (account : Address) : σ → Option (ℤ × σ)
  hedge (targetDeltaBps : ℤ) (account : Address) : σ → Option σ
  account (account : Address) : σ → OptionsAccount

/-- What `initialize` stores; all keys are written together. -/
structure Config (Address : Type) where
  admin : Address
  operator : Address
  protocol : Protocol
  market : Address
  underlyingAsset : Address
  strikeAsset : Address
  maxAbsDeltaBps : ℤ

structure World (Address σ : Type) where
  config : Option (Config Address) := none
  market : σ

structure Host (Address : Type) where
  timestamp : ℕ
  auth : Address → Bool

abbrev Result (α : Type) := Outcome Error α

section Contract

variable {Address σ : Type} [DecidableEq Address] (market : Market Address σ) (this : Address)

/-! ## Helpers -/

def load (w : World Address σ) : Result (Config Address) := okOr w.config .notInitialized

variable (host : Host Address)

def requireAdmin (admin : Address) (w : World Address σ) : Result Unit := do
  let config ← load w
  reject (admin ≠ config.admin) .unauthorized
  ensure (host.auth admin = true)

def requireOperator (w : World Address σ) : Result Unit := do
  let config ← load w
  ensure (host.auth config.operator = true)

def validateDelta (deltaBps : ℤ) : Result Unit :=
  reject (deltaBps < -bpsScale ∨ bpsScale < deltaBps) .invalidDelta

def abs (value : ℤ) : ℤ := if value < 0 then -value else value

def validatePosition (position : OptionPosition) (kind : OptionKind) (amount strikePrice : ℤ)
    (expiry : ℕ) : Result Unit := do
  reject (position.kind ≠ kind ∨ position.amount ≠ amount ∨ position.amount ≤ 0 ∨
    position.strikePrice ≠ strikePrice ∨ position.strikePrice ≤ 0 ∨ position.expiry ≠ expiry ∨
    position.premium < 0) .invalidPosition
  validateDelta position.deltaBps

def readAccount (w : World Address σ) : Result OptionsAccount := do
  let _ ← load w
  let account := market.account this w.market
  reject (account.underlying < 0 ∨ account.shortCalls < 0 ∨ account.longPuts < 0) .invalidPosition
  validateDelta account.netDeltaBps
  pure account

def ensureDeltaBand (w : World Address σ) : Result OptionsAccount := do
  let account ← readAccount market this w
  let config ← load w
  reject (config.maxAbsDeltaBps < abs account.netDeltaBps) .deltaTooHigh
  pure account

/-! ## Entry points -/

def initializeStrategy (config : Config Address) (w : World Address σ) :
    Result (World Address σ) := do
  reject (w.config.isSome = true) .alreadyInitialized
  reject (config.underlyingAsset = config.strikeAsset) .invalidConfiguration
  reject (config.maxAbsDeltaBps ≤ 0 ∨ bpsScale < config.maxAbsDeltaBps) .invalidDelta
  ensure (host.auth config.admin = true)
  pure { w with config := some config }

def writeCoveredCall (amount strikePrice : ℤ) (expiry : ℕ)
    (w : World Address σ) : Result ((OptionPosition × OptionsAccount) × World Address σ) := do
  requireOperator host w
  reject (amount ≤ 0) .invalidAmount
  reject (strikePrice ≤ 0) .invalidStrike
  reject (expiry ≤ host.timestamp) .invalidExpiry
  let before ← readAccount market this w
  reject (before.underlying < amount) .insufficientUnderlying
  let config ← load w
  let (position, next) ← unwrap (market.writeCoveredCall config.underlyingAsset config.strikeAsset
    amount strikePrice expiry this w.market)
  validatePosition position .coveredCall amount strikePrice expiry
  let optionsAccount ← ensureDeltaBand market this { w with market := next }
  pure ((position, optionsAccount), { w with market := next })

def buyProtectivePut (amount strikePrice : ℤ) (expiry : ℕ) (premium : ℤ)
    (w : World Address σ) : Result ((OptionPosition × OptionsAccount) × World Address σ) := do
  requireOperator host w
  reject (amount ≤ 0) .invalidAmount
  reject (strikePrice ≤ 0) .invalidStrike
  reject (expiry ≤ host.timestamp) .invalidExpiry
  reject (premium < 0) .invalidPremium
  let config ← load w
  let (position, next) ← unwrap (market.buyProtectivePut config.underlyingAsset config.strikeAsset
    amount strikePrice expiry premium this w.market)
  validatePosition position .protectivePut amount strikePrice expiry
  let optionsAccount ← ensureDeltaBand market this { w with market := next }
  pure ((position, optionsAccount), { w with market := next })

def settle (kind : OptionKind) (amount : ℤ) (w : World Address σ) :
    Result ((ℤ × OptionsAccount) × World Address σ) := do
  requireOperator host w
  reject (amount ≤ 0) .invalidAmount
  let _ ← load w
  let (pnl, next) ← unwrap (market.settle kind amount this w.market)
  let optionsAccount ← ensureDeltaBand market this { w with market := next }
  pure ((pnl, optionsAccount), { w with market := next })

def hedge (targetDeltaBps : ℤ) (w : World Address σ) :
    Result (OptionsAccount × World Address σ) := do
  requireOperator host w
  validateDelta targetDeltaBps
  let config ← load w
  reject (config.maxAbsDeltaBps < abs targetDeltaBps) .deltaTooHigh
  let next ← unwrap (market.hedge targetDeltaBps this w.market)
  let optionsAccount ← ensureDeltaBand market this { w with market := next }
  pure (optionsAccount, { w with market := next })

def setMaxAbsDeltaBps (admin : Address) (maxAbsDeltaBps : ℤ)
    (w : World Address σ) : Result (World Address σ) := do
  requireAdmin host admin w
  reject (maxAbsDeltaBps ≤ 0 ∨ bpsScale < maxAbsDeltaBps) .invalidDelta
  pure { w with config := w.config.map fun config => { config with maxAbsDeltaBps } }

def setOperator (admin operator : Address) (w : World Address σ) : Result (World Address σ) := do
  requireAdmin host admin w
  pure { w with config := w.config.map fun config => { config with operator } }

/-! ## Runs -/

inductive Call (Address : Type) where
  | initializeStrategy (config : Config Address)
  | writeCoveredCall (amount strikePrice : ℤ) (expiry : ℕ)
  | buyProtectivePut (amount strikePrice : ℤ) (expiry : ℕ) (premium : ℤ)
  | settle (kind : OptionKind) (amount : ℤ)
  | hedge (targetDeltaBps : ℤ)
  | setMaxAbsDeltaBps (admin : Address) (maxAbsDeltaBps : ℤ)
  | setOperator (admin operator : Address)

def exec (w : World Address σ) : Call Address → Result (World Address σ)
  | .initializeStrategy config => initializeStrategy host config w
  | .writeCoveredCall amount strikePrice expiry =>
    Prod.snd <$> writeCoveredCall market this host amount strikePrice expiry w
  | .buyProtectivePut amount strikePrice expiry premium =>
    Prod.snd <$> buyProtectivePut market this host amount strikePrice expiry premium w
  | .settle kind amount => Prod.snd <$> settle market this host kind amount w
  | .hedge targetDeltaBps => Prod.snd <$> hedge market this host targetDeltaBps w
  | .setMaxAbsDeltaBps admin maxAbsDeltaBps => setMaxAbsDeltaBps host admin maxAbsDeltaBps w
  | .setOperator admin operator => setOperator host admin operator w

/-- A market that accounts for calls: writing a call adds its amount to the short calls of the
account and leaves its underlying, settling calls takes their amount from the short calls, and
nothing else changes the short calls. -/
structure Faithful : Prop where
  written : ∀ {underlying strike amount strikePrice expiry s position s'},
    market.writeCoveredCall underlying strike amount strikePrice expiry this s =
      some (position, s') →
    (market.account this s').shortCalls = (market.account this s).shortCalls + amount ∧
      (market.account this s').underlying = (market.account this s).underlying
  bought : ∀ {underlying strike amount strikePrice expiry premium s position s'},
    market.buyProtectivePut underlying strike amount strikePrice expiry premium this s =
      some (position, s') →
    (market.account this s').shortCalls = (market.account this s).shortCalls
  settled : ∀ {kind amount s pnl s'}, market.settle kind amount this s = some (pnl, s') →
    (market.account this s').shortCalls = (market.account this s).shortCalls -
      if kind = .coveredCall then amount else 0
  hedged : ∀ {targetDeltaBps s s'}, market.hedge targetDeltaBps this s = some s' →
    (market.account this s').shortCalls = (market.account this s).shortCalls

/-- A call of the strategy, or what else happens in the market: prices move, and underlying comes
and goes. -/
inductive Action (Address σ : Type) where
  | call (host : Host Address) (call : Call Address)
  | others (next : σ)

/-- A call that returns; what else happens in the market leaves the short calls of the account. -/
def Step (w : World Address σ) : Action Address σ → World Address σ → Prop
  | .call host call, w' => exec market this host w call = .ok w'
  | .others next, w' => w' = { w with market := next } ∧
    (market.account this next).shortCalls = (market.account this w.market).shortCalls

end Contract

end OptionsStrategy
