import Perigee.Soroban.Store
import Perigee.Soroban.Tokens
import Perigee.Soroban.Run
import Perigee.Data.EditedList

/-!
# The hybrid AMM and limit order book

A constant-product pool and a limit order book over the same two tokens.  A swap asks for an exact
output: it fills the best orders of the opposite side first and takes the rest from the pool.  The
file follows `contracts/hybrid_amm_lob/src/lib.rs`; `amm` is the contract's own address.  The two
matching loops of `swap` are one loop `matchLoop` with the quote as a parameter, which also returns
its fills.
-/

namespace HybridAmmLob

open Soroban EditedList

/-- `PRICE_SCALE`: prices are token B per token A, times this. -/
def priceScale : ℤ := 1000000

inductive Error where
  | alreadyInitialized
  | notInitialized
  | invalidAmount
  | invalidPrice
  | orderNotFound
  | slippageExceeded
  | insufficientLiquidity
  | insufficientShares
  | unauthorized
  deriving DecidableEq

/-- A limit order.  A bid buys token A with token B, an ask sells token A for token B; `amount` is
in token A for both. -/
structure Order (Address : Type) where
  id : ℕ
  maker : Address
  isBid : Bool
  price : ℤ
  amount : ℤ
  deriving DecidableEq

structure PoolState (Address : Type) where
  tokenA : Address
  tokenB : Address
  reserveA : ℤ
  reserveB : ℤ
  totalShares : ℤ
  lpFeeBps : ℤ
  makerFeeBps : ℤ
  admin : Address
  nextOrderId : ℕ
  deriving DecidableEq

structure SwapResult where
  amountIn : ℤ
  amountOut : ℤ
  lobFilled : ℤ
  ammFilled : ℤ
  deriving DecidableEq

structure World (Address : Type) where
  pool : Option (PoolState Address) := none
  bids : List (Order Address) := []
  asks : List (Order Address) := []
  balances : Store Address ℤ := ∅
  tokens : Tokens Address

/-! ## Helpers -/

/-- The loop of `sqrt`, with a bound on its iterations that `sqrt` never exhausts. -/
def sqrtLoop (x : ℤ) : ℕ → ℤ → ℤ → Outcome Error ℤ
  | 0, _, _ => .error .trap
  | fuel + 1, y, z =>
    if z < y then do
      let quotient ← divI128 x z
      let sum ← i128 (quotient + z)
      let next ← divI128 sum 2
      sqrtLoop x fuel z next
    else pure y

def sqrt (x : ℤ) : Outcome Error ℤ :=
  if x = 0 then pure 0
  else do
    let next ← i128 (x + 1)
    let z ← divI128 next 2
    sqrtLoop x (x.toNat + 1) x z

section Contract

variable {Address : Type}

def loadPool (w : World Address) : Outcome Error (PoolState Address) := okOr w.pool .notInitialized

/-- Insert a bid before the first bid of a lower price. -/
def insertBid (orders : List (Order Address)) (order : Order Address) : List (Order Address) :=
  orders.insertIdx (orders.findIdx fun o => o.price < order.price) order

def insertAsk (orders : List (Order Address)) (order : Order Address) : List (Order Address) :=
  orders.insertIdx (orders.findIdx fun o => order.price < o.price) order

def initializePool (admin tokenA tokenB : Address) (lpFeeBps makerFeeBps : ℤ) (w : World Address) :
    Outcome Error (World Address) := do
  reject (w.pool.isSome = true) .alreadyInitialized
  reject (lpFeeBps < 0 ∨ makerFeeBps < 0) .invalidAmount
  pure { w with
    pool := some
      { tokenA, tokenB, lpFeeBps, makerFeeBps, admin
        reserveA := 0, reserveB := 0, totalShares := 0, nextOrderId := 1 } }

/-! ## Pricing -/

def depositShares (pool : PoolState Address) (amountA amountB : ℤ) : Outcome Error ℤ :=
  if pool.totalShares = 0 then do
    let product ← checkedI128 (amountA * amountB) .invalidAmount
    sqrt product
  else do
    let scaledA ← checkedI128 (amountA * pool.totalShares) .invalidAmount
    let sharesA ← divI128 scaledA pool.reserveA
    let scaledB ← checkedI128 (amountB * pool.totalShares) .invalidAmount
    let sharesB ← divI128 scaledB pool.reserveB
    pure (min sharesA sharesB)

/-- How one order is filled: the output the taker receives, the input its maker receives, and the
decrease of the order's amount. -/
structure Quote where
  out : ℤ
  cost : ℤ
  filled : ℤ
  deriving DecidableEq

/-- Fill an ask by at most `remaining` of token A; the taker pays its price and the maker fee. -/
def askQuote (makerFeeBps remaining : ℤ) (order : Order Address) : Outcome Error Quote := do
  let fillA := min remaining order.amount
  let product ← checkedI128 (fillA * order.price) .invalidAmount
  let baseCost ← divI128 product priceScale
  let scaledFee ← checkedI128 (baseCost * makerFeeBps) .invalidAmount
  let makerFee ← divI128 scaledFee 10000
  let takerCost ← i128 (baseCost + makerFee)
  pure { out := fillA, cost := takerCost, filled := fillA }

/-- Fill a bid by at most `remaining` of token B.  The maker fee is computed and not charged. -/
def bidQuote (makerFeeBps remaining : ℤ) (order : Order Address) : Outcome Error Quote := do
  let product ← checkedI128 (order.amount * order.price) .invalidAmount
  let available ← divI128 product priceScale
  let fillB := min remaining available
  let scaled ← checkedI128 (fillB * priceScale) .invalidAmount
  let fillA ← divI128 scaled order.price
  let scaledFee ← checkedI128 (fillB * makerFeeBps) .invalidAmount
  let _makerFee ← divI128 scaledFee 10000
  pure { out := fillB, cost := fillA, filled := fillA }

/-- One iteration's fill: the order as it was, and its quote. -/
abbrev Fill (Address : Type) := Order Address × Quote

/-- The input the pool asks for `remainingOut` of its output reserve. -/
def ammQuote (lpFeeBps reserveIn reserveOut remainingOut : ℤ) : Outcome Error ℤ := do
  reject (reserveOut ≤ remainingOut) .insufficientLiquidity
  let feeScale ← i128 (10000 - lpFeeBps)
  let product ← checkedI128 (reserveIn * remainingOut) .insufficientLiquidity
  let numerator ← checkedI128 (product * 10000) .insufficientLiquidity
  let left ← i128 (reserveOut - remainingOut)
  let denominator ← checkedI128 (left * feeScale) .insufficientLiquidity
  let quotient ← divI128 numerator denominator
  i128 (quotient + 1)

/-- The second phase of a swap: the pool's input and the pool after it. -/
def swapAmm (buyA : Bool) (remainingOut : ℤ) (pool : PoolState Address) :
    Outcome Error (ℤ × PoolState Address) :=
  if 0 < remainingOut then
    if buyA then do
      let ammIn ← ammQuote pool.lpFeeBps pool.reserveB pool.reserveA remainingOut
      let reserveA ← i128 (pool.reserveA - remainingOut)
      let reserveB ← i128 (pool.reserveB + ammIn)
      pure (ammIn, { pool with reserveA, reserveB })
    else do
      let ammIn ← ammQuote pool.lpFeeBps pool.reserveA pool.reserveB remainingOut
      let reserveB ← i128 (pool.reserveB - remainingOut)
      let reserveA ← i128 (pool.reserveA + ammIn)
      pure (ammIn, { pool with reserveA, reserveB })
  else pure (0, pool)

/-! ## The data of a swap -/

structure Progress (Address : Type) where
  remainingOut : ℤ
  totalIn : ℤ
  lobFilled : ℤ
  tokens : Tokens Address
  fills : List (Fill Address)

/-- The constants of a matching loop: the contract, the taker, the two tokens, and how an order is
filled. -/
structure Matching (Address : Type) where
  amm : Address
  taker : Address
  tokenOut : Address
  tokenIn : Address
  quote : ℤ → Order Address → Outcome Error Quote

/-- The matching loop of a swap: asks when token A is bought, bids when it is sold. -/
def matching (amm taker : Address) (buyA : Bool) (pool : PoolState Address) : Matching Address :=
  if buyA then
    { amm, taker, tokenOut := pool.tokenA, tokenIn := pool.tokenB
      quote := askQuote pool.makerFeeBps }
  else
    { amm, taker, tokenOut := pool.tokenB, tokenIn := pool.tokenA
      quote := bidQuote pool.makerFeeBps }

def book (buyA : Bool) (w : World Address) : List (Order Address) := if buyA then w.asks else w.bids

def setBook (buyA : Bool) (orders : List (Order Address)) (w : World Address) : World Address :=
  if buyA then { w with asks := orders } else { w with bids := orders }

/-- The result of a swap, with the fills of its matching loop and the pool's input (0 when the
pool is not used). -/
structure SwapReport (Address : Type) where
  result : SwapResult
  fills : List (Fill Address)
  ammIn : ℤ

/-! ## Liquidity -/

variable [DecidableEq Address] {amm : Address} (env : Env amm)

def deposit (provider : Address) (amountA amountB : ℤ) (w : World Address) :
    Outcome Error (ℤ × World Address) := do
  reject (amountA ≤ 0 ∨ amountB ≤ 0) .invalidAmount
  requireAuth env provider
  let pool ← loadPool w
  let tokens ← w.tokens.transfer pool.tokenA provider amm amountA
  let tokens ← tokens.transfer pool.tokenB provider amm amountB
  let shares ← depositShares pool amountA amountB
  let balance ← i128 (w.balances.getD provider 0 + shares)
  let reserveA ← i128 (pool.reserveA + amountA)
  let reserveB ← i128 (pool.reserveB + amountB)
  let totalShares ← i128 (pool.totalShares + shares)
  pure (shares, { w with
    pool := some { pool with reserveA, reserveB, totalShares }
    balances := w.balances.set provider balance
    tokens })

def withdraw (provider : Address) (shares : ℤ) (w : World Address) :
    Outcome Error ((ℤ × ℤ) × World Address) := do
  reject (shares ≤ 0) .invalidAmount
  requireAuth env provider
  let pool ← loadPool w
  let current := w.balances.getD provider 0
  reject (current < shares) .insufficientShares
  let scaledA ← i128 (shares * pool.reserveA)
  let outA ← divI128 scaledA pool.totalShares
  let scaledB ← i128 (shares * pool.reserveB)
  let outB ← divI128 scaledB pool.totalShares
  let balance ← i128 (current - shares)
  let reserveA ← i128 (pool.reserveA - outA)
  let reserveB ← i128 (pool.reserveB - outB)
  let totalShares ← i128 (pool.totalShares - shares)
  let tokens ← w.tokens.transfer pool.tokenA amm provider outA
  let tokens ← tokens.transfer pool.tokenB amm provider outB
  pure ((outA, outB), { w with
    pool := some { pool with reserveA, reserveB, totalShares }
    balances := w.balances.set provider balance
    tokens })

/-! ## Limit orders -/

/-- The escrow of an order is moved from its maker to the contract: token B for a bid, token A for
an ask. -/
def escrow (amm : Address) (pool : PoolState Address) (maker : Address) (isBid : Bool)
    (price amount : ℤ) (tokens : Tokens Address) : Outcome Error (Tokens Address) :=
  if isBid then do
    let product ← checkedI128 (amount * price) .invalidAmount
    let cost ← divI128 product priceScale
    tokens.transfer pool.tokenB maker amm cost
  else tokens.transfer pool.tokenA maker amm amount

def placeOrder (maker : Address) (isBid : Bool) (price amount : ℤ)
    (w : World Address) : Outcome Error (ℕ × World Address) := do
  reject (amount ≤ 0) .invalidAmount
  reject (price ≤ 0) .invalidPrice
  requireAuth env maker
  let pool ← loadPool w
  let tokens ← escrow amm pool maker isBid price amount w.tokens
  let nextOrderId ← u64 (pool.nextOrderId + 1)
  let order := { id := pool.nextOrderId, maker, isBid, price, amount : Order Address }
  let w := { w with pool := some { pool with nextOrderId }, tokens }
  pure (pool.nextOrderId,
    if isBid then { w with bids := insertBid w.bids order }
    else { w with asks := insertAsk w.asks order })

/-- Cancel an order and refund its escrow; bids are searched before asks. -/
def cancelOrder (maker : Address) (orderId : ℕ) (w : World Address) :
    Outcome Error (World Address) := do
  requireAuth env maker
  let pool ← loadPool w
  match w.bids.find? (fun o => o.id == orderId) with
  | some o => do
    reject (o.maker ≠ maker) .unauthorized
    let product ← checkedI128 (o.amount * o.price) .invalidAmount
    let refund ← divI128 product priceScale
    let tokens ← w.tokens.transfer pool.tokenB amm maker refund
    pure { w with bids := w.bids.eraseP (fun o => o.id == orderId), tokens }
  | none =>
    match w.asks.find? (fun o => o.id == orderId) with
    | some o => do
      reject (o.maker ≠ maker) .unauthorized
      let tokens ← w.tokens.transfer pool.tokenA amm maker o.amount
      pure { w with asks := w.asks.eraseP (fun o => o.id == orderId), tokens }
    | none => .error (.err .orderNotFound)

/-! ## Matching -/

/-- The body of a matching loop: fill an order, and keep it unless nothing is left of it. -/
def fillOrder (m : Matching Address) (order : Order Address) (p : Progress Address) :
    Outcome Error (Option (Order Address) × Progress Address) := do
  let q ← m.quote p.remainingOut order
  let totalIn ← i128 (p.totalIn + q.cost)
  let remainingOut ← i128 (p.remainingOut - q.out)
  let lobFilled ← i128 (p.lobFilled + q.out)
  let tokens ← p.tokens.transfer m.tokenOut m.amm m.taker q.out
  let tokens ← tokens.transfer m.tokenIn m.amm order.maker q.cost
  let amount ← i128 (order.amount - q.filled)
  pure (if amount = 0 then none else some { order with amount },
    { remainingOut, totalIn, lobFilled, tokens, fills := p.fills ++ [(order, q)] })

/-- A matching loop: visit the orders while some output remains. -/
def matchLoop (m : Matching Address) (orders : List (Order Address)) (p : Progress Address) :
    Outcome Error (List (Order Address) × Progress Address) :=
  sweep (fun p => 0 < p.remainingOut) (fillOrder m) orders.length 0 orders p

/-! ## Swaps -/

/-- The first phase of a swap: fill limit orders. -/
def swapBook (amm taker : Address) (buyA : Bool) (out : ℤ) (pool : PoolState Address)
    (w : World Address) : Outcome Error (List (Order Address) × Progress Address) :=
  matchLoop (matching amm taker buyA pool) (book buyA w)
    { remainingOut := out, totalIn := 0, lobFilled := 0, tokens := w.tokens, fills := [] }

def payAmm (tokens : Tokens Address) (tokenOut amm taker : Address) (ammFilled : ℤ) :
    Outcome Error (Tokens Address) :=
  if 0 < ammFilled then tokens.transfer tokenOut amm taker ammFilled else pure tokens

/-- Buy exactly `out` of one token for at most `inMax` of the other. -/
def swap (taker : Address) (buyA : Bool) (out inMax : ℤ) (w : World Address) :
    Outcome Error (SwapReport Address × World Address) := do
  reject (out ≤ 0) .invalidAmount
  requireAuth env taker
  let pool ← loadPool w
  let (orders, p) ← swapBook amm taker buyA out pool w
  let (ammIn, pool') ← swapAmm buyA p.remainingOut pool
  let totalIn ← i128 (p.totalIn + ammIn)
  let ammFilled := if 0 < p.remainingOut then p.remainingOut else 0
  reject (inMax < totalIn) .slippageExceeded
  let m := matching amm taker buyA pool
  let tokens ← p.tokens.transfer m.tokenIn taker amm totalIn
  let tokens ← payAmm tokens m.tokenOut amm taker ammFilled
  let w' := { setBook buyA orders w with pool := some pool', tokens }
  pure ({ result := { amountIn := totalIn, amountOut := out, lobFilled := p.lobFilled, ammFilled }
          fills := p.fills, ammIn }, w')

/-! ## The system -/

inductive Call (Address : Type) where
  | deposit (provider : Address) (amountA amountB : ℤ)
  | withdraw (provider : Address) (shares : ℤ)
  | placeOrder (maker : Address) (isBid : Bool) (price amount : ℤ)
  | cancelOrder (maker : Address) (orderId : ℕ)
  | swap (taker : Address) (buyA : Bool) (out inMax : ℤ)

def exec (w : World Address) : Call Address → Outcome Error (World Address)
  | .deposit provider amountA amountB => Prod.snd <$> deposit env provider amountA amountB w
  | .withdraw provider shares => Prod.snd <$> withdraw env provider shares w
  | .placeOrder maker isBid price amount => Prod.snd <$> placeOrder env maker isBid price amount w
  | .cancelOrder maker orderId => cancelOrder env maker orderId w
  | .swap taker buyA out inMax => Prod.snd <$> swap env taker buyA out inMax w

inductive Action (amm : Address) where
  | call (env : Env amm) (c : Call Address)
  | external (tokens : Tokens Address)

/-- One step of the system.  Tokens leave the contract only in its own calls. -/
def Step (amm : Address) (w : World Address) (action : Action amm) (w' : World Address) : Prop :=
  match action with
  | .call env c => exec env w c = .ok w'
  | .external tokens =>
      (∀ token, w.tokens token amm ≤ tokens token amm) ∧ w' = { w with tokens }

def Initial (amm : Address) (w : World Address) : Prop :=
  ∃ (admin tokenA tokenB : Address) (lpFeeBps makerFeeBps : ℤ) (tokens : Tokens Address),
    tokenA ≠ tokenB ∧ (∀ token, 0 ≤ tokens token amm) ∧
      initializePool admin tokenA tokenB lpFeeBps makerFeeBps { tokens } = .ok w

end Contract

end HybridAmmLob
