import Perigee.ConcentratedAmm.Math
import Perigee.Soroban.Store
import Perigee.Soroban.Tokens
import Perigee.Soroban.Run

/-!
# The concentrated-liquidity AMM

Liquidity is provided over ranges of ticks.  Every tick where a range ends has a record, and a bit
in a bitmap by which swaps find it.  The file follows `contracts/concentrated_amm/src/lib.rs`; `amm`
is the contract's own address.  The host limits the work of a call, so the loop of `swap` runs on a
budget of iterations and traps when it is used up.
-/

namespace ConcentratedAmm

open Soroban

inductive Error where
  | alreadyInitialized
  | notInitialized
  | invalidTickRange
  | insufficientAmount
  | slippageExceeded
  | invalidFee
  | mathError
  deriving DecidableEq

/-- `From<MathError>`, as the `?` operator applies it. -/
def ofMath {α : Type} : Outcome MathError α → Outcome Error α
  | .ok a => .ok a
  | .error (.err _) => .error (.err .mathError)
  | .error .trap => .error .trap

def unwrapOr {α : Type} (x : Outcome MathError α) (default : α) : Outcome Error α :=
  match x with
  | .ok a => .ok a
  | .error (.err _) => .ok default
  | .error .trap => .error .trap

structure TickInfo where
  liquidityGross : ℕ
  liquidityNet : ℤ
  feeGrowthOutside0 : ℕ
  feeGrowthOutside1 : ℕ
  deriving DecidableEq

def emptyTick : TickInfo := ⟨0, 0, 0, 0⟩

structure PositionInfo where
  liquidity : ℕ
  feeGrowthInside0Last : ℕ
  feeGrowthInside1Last : ℕ
  tokensOwed0 : ℕ
  tokensOwed1 : ℕ
  deriving DecidableEq

structure Pool (Address : Type) where
  tokenA : Address
  tokenB : Address
  feeBps : ℕ
  tickSpacing : ℤ
  currentTick : ℤ
  currentSqrtPrice : ℕ
  liquidity : ℕ
  feeGrowthGlobal0 : ℕ
  feeGrowthGlobal1 : ℕ
  deriving DecidableEq

abbrev Ticks := Store ℤ TickInfo

abbrev TickBitmap := Store ℤ (BitVec 64)

/-- The positions, each kept under its owner and the two ends of its range. -/
abbrev Positions (Address : Type) := Store (Address × ℤ × ℤ) PositionInfo

structure World (Address : Type) where
  pool : Option (Pool Address) := none
  ticks : Ticks := ∅
  tickBitmap : TickBitmap := ∅
  positions : Positions Address := ∅
  tokens : Tokens Address

/-! ## Ticks -/

/-- The change of a tick's net liquidity: an upper end counts negatively. -/
def netDelta (liquidityDelta : ℤ) (isUpper : Bool) : Outcome Error ℤ :=
  if isUpper then i128 (-liquidityDelta) else pure liquidityDelta

/-- Add a signed amount to an unsigned one, saturating at both ends. -/
def saturatingAddSigned (x : ℕ) (delta : ℤ) : Outcome Error ℕ :=
  if delta < 0 then do
    let magnitude ← i128 (-delta)
    pure (x - magnitude.toNat)
  else pure (saturatingAdd x delta.toNat)

/-- Change the liquidity of a tick; a tick without liquidity has no record. -/
def updateTick (ticks : Ticks) (tick currentTick liquidityDelta : ℤ) (fg0 fg1 : ℕ)
    (isUpper : Bool) : Outcome Error (Bool × Ticks) := do
  let info := ticks.getD tick emptyTick
  let before := info.liquidityGross
  let info := if before = 0 ∧ tick ≤ currentTick then
    { info with feeGrowthOutside0 := fg0, feeGrowthOutside1 := fg1 } else info
  let delta ← netDelta liquidityDelta isUpper
  let liquidityNet ← i128 (info.liquidityNet + delta)
  let liquidityGross ← saturatingAddSigned before liquidityDelta
  let flipped := decide (before = 0 ∧ 0 < liquidityGross ∨ 0 < before ∧ liquidityGross = 0)
  pure (flipped, if liquidityGross = 0 then ticks.remove tick
    else ticks.set tick { info with liquidityGross, liquidityNet })

def flipTickBitmap (bitmap : TickBitmap) (tick tickSpacing : ℤ) : Outcome Error TickBitmap := do
  let compressed ← divI32 tick tickSpacing
  let wordPos := compressed / 64
  let bitPos := (compressed % 64).toNat
  let word := bitmap.getD wordPos 0 ^^^ (1#64 <<< bitPos)
  pure (if word = 0 then bitmap.remove wordPos else bitmap.set wordPos word)

def flipIf (flipped : Bool) (bitmap : TickBitmap) (tick tickSpacing : ℤ) :
    Outcome Error TickBitmap :=
  if flipped then flipTickBitmap bitmap tick tickSpacing else pure bitmap

/-- The tick divided by the spacing, rounded down for a negative tick. -/
def compress (tick tickSpacing : ℤ) : Outcome Error ℤ :=
  if tick < 0 then do
    let remainder ← remI32 tick tickSpacing
    let quotient ← divI32 tick tickSpacing
    if remainder ≠ 0 then i32 (quotient - 1) else pure quotient
  else divI32 tick tickSpacing

/-- The next tick with a bit in the same word, at or below the tick (`lte`) or above it; if there is
none, the end of the word. -/
def nextInitializedTickWithinOneWord (bitmap : TickBitmap) (tick tickSpacing : ℤ) (lte : Bool) :
    Outcome Error (ℤ × Bool) := do
  let compressed ← compress tick tickSpacing
  if lte then do
    let wordPos := compressed / 64
    let bitPos := (compressed % 64).toNat
    let mask : BitVec 64 := (1#64 <<< bitPos) - 1 + (1#64 <<< bitPos)
    let masked := bitmap.getD wordPos 0 &&& mask
    if masked ≠ 0 then do
      let bit := 63 - masked.clz.toNat
      let next ← i32 ((wordPos * 64 + bit) * tickSpacing)
      pure (next, true)
    else do
      let next ← i32 (wordPos * 64 * tickSpacing)
      pure (next, false)
  else do
    let compressedNext ← i32 (compressed + 1)
    let wordPos := compressedNext / 64
    let bitPos := (compressedNext % 64).toNat
    let mask : BitVec 64 := ~~~((1#64 <<< bitPos) - 1)
    let masked := bitmap.getD wordPos 0 &&& mask
    if masked ≠ 0 then do
      let bit := masked.ctz.toNat
      let next ← i32 ((wordPos * 64 + bit) * tickSpacing)
      pure (next, true)
    else do
      let wordEnd ← i32 ((wordPos + 1) * 64)
      let next ← i32 ((wordEnd - 1) * tickSpacing)
      pure (next, false)

/-! ## Fees -/

/-- The fees grown on the other side of a tick, as seen from inside a range. -/
def growthBeyond (global outside : ℕ) (here : Bool) : ℕ :=
  if here then outside else wrappingSub global outside

def getFeeGrowthInside (ticks : Ticks) (tickLower tickUpper tickCurrent : ℤ) (fg0 fg1 : ℕ) :
    ℕ × ℕ :=
  let lower := ticks.getD tickLower emptyTick
  let upper := ticks.getD tickUpper emptyTick
  let above := decide (tickLower ≤ tickCurrent)
  let below := decide (tickCurrent < tickUpper)
  (wrappingSub (wrappingSub fg0 (growthBeyond fg0 lower.feeGrowthOutside0 above))
      (growthBeyond fg0 upper.feeGrowthOutside0 below),
    wrappingSub (wrappingSub fg1 (growthBeyond fg1 lower.feeGrowthOutside1 above))
      (growthBeyond fg1 upper.feeGrowthOutside1 below))

/-- Credit a position with the fees grown inside its range since its last update. -/
def accrue (pos : PositionInfo) (inside : ℕ × ℕ) : Outcome Error PositionInfo := do
  let fee0 ← unwrapOr
    (mulDivU128 pos.liquidity (wrappingSub inside.1 pos.feeGrowthInside0Last) q64) 0
  let tokensOwed0 ← u128 (pos.tokensOwed0 + fee0)
  let fee1 ← unwrapOr
    (mulDivU128 pos.liquidity (wrappingSub inside.2 pos.feeGrowthInside1Last) q64) 0
  let tokensOwed1 ← u128 (pos.tokensOwed1 + fee1)
  pure { pos with
    feeGrowthInside0Last := inside.1, feeGrowthInside1Last := inside.2, tokensOwed0, tokensOwed1 }

/-! ## Liquidity -/

/-- The liquidity of a mint and the amounts it is charged, by where the price is. -/
def mintAmounts (price ratioA ratioB amountADesired amountBDesired : ℕ) :
    Outcome Error (ℕ × ℕ × ℕ) :=
  if price ≤ ratioA then do
    let num1 ← ofMath (mulDivU128 amountADesired ratioB q64)
    let num2 ← ofMath (mulDivU128 num1 ratioA q64)
    let den ← checkedSub ratioB ratioA .mathError
    let liquidity ← ofMath (mulDivU128 num2 q64 den)
    pure (liquidity, amountADesired, 0)
  else if ratioB ≤ price then do
    let diff ← checkedSub ratioB ratioA .mathError
    let liquidity ← ofMath (mulDivU128 amountBDesired q64 diff)
    pure (liquidity, 0, amountBDesired)
  else do
    let num1 ← ofMath (mulDivU128 amountADesired ratioB q64)
    let num2 ← ofMath (mulDivU128 num1 price q64)
    let denA ← checkedSub ratioB price .mathError
    let liqA ← ofMath (mulDivU128 num2 q64 denA)
    let diffB ← checkedSub price ratioA .mathError
    let liqB ← ofMath (mulDivU128 amountBDesired q64 diffB)
    let liquidity := if liqA < liqB then liqA else liqB
    let amountA ← ofMath (getAmount0Delta price ratioB liquidity)
    let amountB ← ofMath (getAmount1Delta ratioA price liquidity)
    pure (liquidity, amountA, amountB)

/-- The amounts a burn pays, by where the tick is. -/
def burnAmounts (currentTick tickLower tickUpper : ℤ) (price ratioA ratioB liquidity : ℕ) :
    Outcome Error (ℕ × ℕ) :=
  if currentTick < tickLower then do
    let amountA ← ofMath (getAmount0Delta ratioA ratioB liquidity)
    pure (amountA, 0)
  else if tickUpper ≤ currentTick then do
    let amountB ← ofMath (getAmount1Delta ratioA ratioB liquidity)
    pure (0, amountB)
  else do
    let amountA ← ofMath (getAmount0Delta price ratioB liquidity)
    let amountB ← ofMath (getAmount1Delta ratioA price liquidity)
    pure (amountA, amountB)

/-- The liquidity active after a range is changed: only a range around the current tick counts. -/
def activeLiquidity (currentTick tickLower tickUpper : ℤ) (before : ℕ) (after : Outcome Error ℕ) :
    Outcome Error ℕ :=
  if tickLower ≤ currentTick ∧ currentTick < tickUpper then after else pure before

section Contract

variable {Address : Type} [DecidableEq Address] {amm : Address}

/-- Transfer a `u128` amount, cast to `i128`, unless it is zero. -/
def payIfPositive (tokens : Tokens Address) (token src dst : Address) (amount : ℕ) :
    Outcome Error (Tokens Address) :=
  if 0 < amount then tokens.transfer token src dst (asI128 amount) else pure tokens

variable (pool : Pool Address)

/-- The transfers of the two tokens that `mint`, `burn` and `collect_fees` have in common. -/
def payBoth (tokens : Tokens Address) (src dst : Address)
    (amountA amountB : ℕ) : Outcome Error (Tokens Address) := do
  let tokens ← payIfPositive tokens pool.tokenA src dst amountA
  payIfPositive tokens pool.tokenB src dst amountB

/-- The update of the two ends of a range that `mint` and `burn` have in common. -/
def updateRange (ticks : Ticks) (bitmap : TickBitmap)
    (tickLower tickUpper liquidityDelta : ℤ) : Outcome Error (Ticks × TickBitmap) := do
  let (flippedLower, ticks) ← updateTick ticks tickLower pool.currentTick liquidityDelta
    pool.feeGrowthGlobal0 pool.feeGrowthGlobal1 false
  let (flippedUpper, ticks) ← updateTick ticks tickUpper pool.currentTick liquidityDelta
    pool.feeGrowthGlobal0 pool.feeGrowthGlobal1 true
  let bitmap ← flipIf flippedLower bitmap tickLower pool.tickSpacing
  let bitmap ← flipIf flippedUpper bitmap tickUpper pool.tickSpacing
  pure (ticks, bitmap)

def feeGrowthInside (ticks : Ticks) (tickLower tickUpper : ℤ) : ℕ × ℕ :=
  getFeeGrowthInside ticks tickLower tickUpper pool.currentTick pool.feeGrowthGlobal0
    pool.feeGrowthGlobal1

def initializePool (tokenA tokenB : Address) (feeBps : ℕ) (tickSpacing : ℤ)
    (initialSqrtPrice : ℕ) (initialTick : ℤ) (w : World Address) :
    Outcome Error (World Address) := do
  reject (w.pool.isSome = true) .alreadyInitialized
  pure { w with
    pool := some
      { tokenA, tokenB, feeBps, tickSpacing
        currentTick := initialTick, currentSqrtPrice := initialSqrtPrice
        liquidity := 0, feeGrowthGlobal0 := 0, feeGrowthGlobal1 := 0 } }

def mint (env : Env amm) (owner : Address) (tickLower tickUpper : ℤ)
    (amountADesired amountBDesired : ℕ) (w : World Address) :
    Outcome Error ((ℕ × ℕ × ℕ) × World Address) := do
  requireAuth env owner
  let pool ← okOr w.pool .notInitialized
  reject (tickUpper ≤ tickLower) .invalidTickRange
  let lowerRem ← remI32 tickLower pool.tickSpacing
  reject (lowerRem ≠ 0) .invalidTickRange
  let upperRem ← remI32 tickUpper pool.tickSpacing
  reject (upperRem ≠ 0) .invalidTickRange
  let ratioA ← ofMath (getSqrtRatioAtTick tickLower)
  let ratioB ← ofMath (getSqrtRatioAtTick tickUpper)
  let (liquidity, amountA, amountB) ←
    mintAmounts pool.currentSqrtPrice ratioA ratioB amountADesired amountBDesired
  reject (liquidity = 0) .insufficientAmount
  let tokens ← payBoth pool w.tokens owner amm amountA amountB
  let (ticks, tickBitmap) ←
    updateRange pool w.ticks w.tickBitmap tickLower tickUpper (asI128 liquidity)
  let inside := feeGrowthInside pool ticks tickLower tickUpper
  let pos ← accrue (w.positions.getD (owner, tickLower, tickUpper) ⟨0, inside.1, inside.2, 0, 0⟩)
    inside
  let posLiquidity ← u128 (pos.liquidity + liquidity)
  let active ← activeLiquidity pool.currentTick tickLower tickUpper pool.liquidity
    (u128 (pool.liquidity + liquidity))
  pure ((liquidity, amountA, amountB), { w with
    pool := some { pool with liquidity := active }
    ticks, tickBitmap, tokens
    positions := w.positions.set (owner, tickLower, tickUpper)
      { pos with liquidity := posLiquidity } })

def burn (env : Env amm) (owner : Address) (tickLower tickUpper : ℤ) (liquidity : ℕ)
    (w : World Address) : Outcome Error ((ℕ × ℕ) × World Address) := do
  requireAuth env owner
  let pos ← okOr (w.positions.lookup (owner, tickLower, tickUpper)) .insufficientAmount
  reject (pos.liquidity < liquidity) .insufficientAmount
  let pool ← unwrap w.pool
  let ratioA ← ofMath (getSqrtRatioAtTick tickLower)
  let ratioB ← ofMath (getSqrtRatioAtTick tickUpper)
  let (amountA, amountB) ← burnAmounts pool.currentTick tickLower tickUpper
    pool.currentSqrtPrice ratioA ratioB liquidity
  let pos ← accrue pos (feeGrowthInside pool w.ticks tickLower tickUpper)
  let posLiquidity ← subU128 pos.liquidity liquidity
  let pos := { pos with liquidity := posLiquidity }
  let positions := if pos.liquidity = 0 ∧ pos.tokensOwed0 = 0 ∧ pos.tokensOwed1 = 0 then
    w.positions.remove (owner, tickLower, tickUpper)
    else w.positions.set (owner, tickLower, tickUpper) pos
  let delta ← i128 (-asI128 liquidity)
  let (ticks, tickBitmap) ← updateRange pool w.ticks w.tickBitmap tickLower tickUpper delta
  let active ← activeLiquidity pool.currentTick tickLower tickUpper pool.liquidity
    (subU128 pool.liquidity liquidity)
  let tokens ← payBoth pool w.tokens amm owner amountA amountB
  pure ((amountA, amountB), { w with
    pool := some { pool with liquidity := active }
    ticks, tickBitmap, positions, tokens })

def collectFees (env : Env amm) (owner : Address) (tickLower tickUpper : ℤ) (w : World Address) :
    Outcome Error ((ℕ × ℕ) × World Address) := do
  requireAuth env owner
  let pos ← okOr (w.positions.lookup (owner, tickLower, tickUpper)) .insufficientAmount
  let pool ← unwrap w.pool
  let pos ← accrue pos (feeGrowthInside pool w.ticks tickLower tickUpper)
  let positions := if pos.liquidity = 0 then w.positions.remove (owner, tickLower, tickUpper)
    else w.positions.set (owner, tickLower, tickUpper)
      { pos with tokensOwed0 := 0, tokensOwed1 := 0 }
  let tokens ← payBoth pool w.tokens amm owner pos.tokensOwed0 pos.tokensOwed1
  pure ((pos.tokensOwed0, pos.tokensOwed1), { w with positions, tokens })

/-! ## Swaps -/

/-- What a swap reads and does not change. -/
structure SwapConfig where
  feeBps : ℕ
  tickSpacing : ℤ
  tickBitmap : TickBitmap
  zeroForOne : Bool

structure SwapState where
  sqrtPrice : ℕ
  tick : ℤ
  liquidity : ℕ
  fg0 : ℕ
  fg1 : ℕ
  amountRemaining : ℕ
  amountIn : ℕ
  amountOut : ℕ
  ticks : Ticks

variable (zeroForOne : Bool)

def amountInDelta (price priceNext liquidity : ℕ) : Outcome MathError ℕ :=
  if zeroForOne then getAmount0Delta price priceNext liquidity
  else getAmount1Delta price priceNext liquidity

def amountOutDelta (price priceNext liquidity : ℕ) : Outcome MathError ℕ :=
  if zeroForOne then getAmount1Delta price priceNext liquidity
  else getAmount0Delta price priceNext liquidity

/-- Cross a tick: its outside fees become those of the other side. -/
def crossedTick (info : TickInfo) (fg0 fg1 : ℕ) : TickInfo :=
  { info with
    feeGrowthOutside0 := wrappingSub fg0 info.feeGrowthOutside0
    feeGrowthOutside1 := wrappingSub fg1 info.feeGrowthOutside1 }

def crossedLiquidity (liquidity : ℕ) (liquidityNet : ℤ) : Outcome Error ℕ := do
  let net ← netDelta liquidityNet zeroForOne
  saturatingAddSigned liquidity net

def tickAfter (nextTick : ℤ) : Outcome Error ℤ :=
  if zeroForOne then i32 (nextTick - 1) else pure nextTick

def crossIfPresent (nextTick : ℤ) (s : SwapState) : Outcome Error (Ticks × ℕ) :=
  match s.ticks.lookup nextTick with
  | none => pure (s.ticks, s.liquidity)
  | some info => do
    let liquidity ← crossedLiquidity zeroForOne s.liquidity info.liquidityNet
    pure (s.ticks.set nextTick (crossedTick info s.fg0 s.fg1), liquidity)

variable (cfg : SwapConfig)

/-- Without active liquidity the swap jumps to the next tick of the word, or stops. -/
def jump (s : SwapState) : Outcome Error (Option SwapState) := do
  let (nextTick, initialized) ←
    nextInitializedTickWithinOneWord cfg.tickBitmap s.tick cfg.tickSpacing cfg.zeroForOne
  if initialized then do
    let (ticks, liquidity) ← crossIfPresent cfg.zeroForOne nextTick s
    let tick ← tickAfter cfg.zeroForOne nextTick
    let sqrtPrice ← ofMath (getSqrtRatioAtTick tick)
    pure (some { s with sqrtPrice, tick, liquidity, ticks })
  else pure none

/-- Account for the amounts and the fee of a step. -/
def settle (amountInStep amountOutStep feeAmount : ℕ) (s : SwapState) :
    Outcome Error SwapState := do
  let growth ← ofMath (mulDivU128 feeAmount q64 s.liquidity)
  let spent ← u128 (amountInStep + feeAmount)
  let amountIn ← u128 (s.amountIn + spent)
  let amountOut ← u128 (s.amountOut + amountOutStep)
  pure { s with
    fg0 := if zeroForOne then wrappingAdd s.fg0 growth else s.fg0
    fg1 := if zeroForOne then s.fg1 else wrappingAdd s.fg1 growth
    amountIn, amountOut
    amountRemaining := s.amountRemaining - spent }

/-- A step that uses up the range to the next tick and crosses it. -/
def crossStep (nextTick : ℤ) (priceNext keep maxAmountIn : ℕ) (s : SwapState) :
    Outcome Error SwapState := do
  let amountOut ← ofMath (amountOutDelta cfg.zeroForOne s.sqrtPrice priceNext s.liquidity)
  let feeAmount ← ofMath (mulDivU128 maxAmountIn cfg.feeBps keep)
  let s ← settle cfg.zeroForOne maxAmountIn amountOut feeAmount s
  let tick ← tickAfter cfg.zeroForOne nextTick
  let info ← unwrap (s.ticks.lookup nextTick)
  let liquidity ← crossedLiquidity cfg.zeroForOne s.liquidity info.liquidityNet
  pure { s with
    sqrtPrice := priceNext, tick, liquidity
    ticks := s.ticks.set nextTick (crossedTick info s.fg0 s.fg1) }

/-- A step that uses up the remaining input; only the price moves. -/
def withinStep (lessFee : ℕ) (s : SwapState) : Outcome Error SwapState := do
  let sqrtPrice ← ofMath
    (getNextSqrtPriceFromInput s.sqrtPrice s.liquidity lessFee cfg.zeroForOne)
  let amountOut ← ofMath (amountOutDelta cfg.zeroForOne s.sqrtPrice sqrtPrice s.liquidity)
  let feeAmount ← subU128 s.amountRemaining lessFee
  let s ← settle cfg.zeroForOne lessFee amountOut feeAmount s
  pure { s with sqrtPrice }

def tradeStep (s : SwapState) : Outcome Error SwapState := do
  let (nextTick, initialized) ←
    nextInitializedTickWithinOneWord cfg.tickBitmap s.tick cfg.tickSpacing cfg.zeroForOne
  let priceNext ← ofMath (getSqrtRatioAtTick nextTick)
  let keep ← subU128 10000 cfg.feeBps
  let lessFee ← ofMath (mulDivU128 s.amountRemaining keep 10000)
  let maxAmountIn ←
    unwrapOr (amountInDelta cfg.zeroForOne s.sqrtPrice priceNext s.liquidity) (2 ^ 128 - 1)
  if maxAmountIn ≤ lessFee ∧ initialized = true then
    crossStep cfg nextTick priceNext keep maxAmountIn s
  else withinStep cfg lessFee s

/-- The body of the swap loop; `none` is its `break`. -/
def swapStep (s : SwapState) : Outcome Error (Option SwapState) :=
  if s.liquidity = 0 then jump cfg s
  else do
    let s ← tradeStep cfg s
    pure (some s)

/-- The swap loop, on a budget of iterations. -/
def swapLoop (cfg : SwapConfig) : ℕ → SwapState → Outcome Error SwapState
  | 0, _ => .error .trap
  | budget + 1, s =>
    if 0 < s.amountRemaining then do
      let next ← swapStep cfg s
      match next with
      | none => pure s
      | some s => swapLoop cfg budget s
    else pure s

def swapConfig (w : World Address) (zeroForOne : Bool) : SwapConfig :=
  ⟨pool.feeBps, pool.tickSpacing, w.tickBitmap, zeroForOne⟩

def swapStart (w : World Address) (amountSpecified : ℕ) : SwapState where
  sqrtPrice := pool.currentSqrtPrice
  tick := pool.currentTick
  liquidity := pool.liquidity
  fg0 := pool.feeGrowthGlobal0
  fg1 := pool.feeGrowthGlobal1
  amountRemaining := amountSpecified
  amountIn := 0
  amountOut := 0
  ticks := w.ticks

def Pool.afterSwap (s : SwapState) : Pool Address :=
  { pool with
    currentSqrtPrice := s.sqrtPrice, currentTick := s.tick, liquidity := s.liquidity
    feeGrowthGlobal0 := s.fg0, feeGrowthGlobal1 := s.fg1 }

/-- Swap an exact input, token A for token B (`zeroForOne`) or the other way. -/
def swap (env : Env amm) (trader : Address) (zeroForOne : Bool) (amountSpecified budget : ℕ)
    (w : World Address) : Outcome Error ((ℕ × ℕ) × World Address) := do
  requireAuth env trader
  let pool ← okOr w.pool .notInitialized
  let s ← swapLoop (swapConfig pool w zeroForOne) budget (swapStart pool w amountSpecified)
  let tokenIn := if zeroForOne then pool.tokenA else pool.tokenB
  let tokenOut := if zeroForOne then pool.tokenB else pool.tokenA
  let tokens ← w.tokens.transfer tokenIn trader amm (asI128 s.amountIn)
  let tokens ← tokens.transfer tokenOut amm trader (asI128 s.amountOut)
  pure ((s.amountIn, s.amountOut), { w with
    pool := some (pool.afterSwap s)
    ticks := s.ticks
    tokens })

/-! ## The system -/

/-- The entry points of an initialized pool, with their arguments; a swap also has the budget the
host gives it. -/
inductive Call (Address : Type) where
  | mint (owner : Address) (tickLower tickUpper : ℤ) (amountADesired amountBDesired : ℕ)
  | burn (owner : Address) (tickLower tickUpper : ℤ) (liquidity : ℕ)
  | collectFees (owner : Address) (tickLower tickUpper : ℤ)
  | swap (trader : Address) (zeroForOne : Bool) (amountSpecified budget : ℕ)

def Call.Typed : Call Address → Prop
  | .mint _ tickLower tickUpper a b =>
      IsI32 tickLower ∧ IsI32 tickUpper ∧ a < 2 ^ 128 ∧ b < 2 ^ 128
  | .burn _ tickLower tickUpper liquidity =>
      IsI32 tickLower ∧ IsI32 tickUpper ∧ liquidity < 2 ^ 128
  | .collectFees _ tickLower tickUpper => IsI32 tickLower ∧ IsI32 tickUpper
  | .swap _ _ amountSpecified _ => amountSpecified < 2 ^ 128

instance : ∀ c : Call Address, Decidable c.Typed
  | .mint .. => inferInstanceAs (Decidable (_ ∧ _ ∧ _ ∧ _))
  | .burn .. => inferInstanceAs (Decidable (_ ∧ _ ∧ _))
  | .collectFees .. => inferInstanceAs (Decidable (_ ∧ _))
  | .swap .. => inferInstanceAs (Decidable (_ < _))

def exec (env : Env amm) (w : World Address) : Call Address → Outcome Error (World Address)
  | .mint owner tickLower tickUpper a b => Prod.snd <$> mint env owner tickLower tickUpper a b w
  | .burn owner tickLower tickUpper liquidity =>
      Prod.snd <$> burn env owner tickLower tickUpper liquidity w
  | .collectFees owner tickLower tickUpper =>
      Prod.snd <$> collectFees env owner tickLower tickUpper w
  | .swap trader zeroForOne amountSpecified budget =>
      Prod.snd <$> swap env trader zeroForOne amountSpecified budget w

inductive Action (amm : Address) where
  | call (env : Env amm) (c : Call Address)
  | external (tokens : Tokens Address)

/-- One step of the system.  Tokens leave the contract only in its own calls. -/
def Step (amm : Address) (w : World Address) (action : Action amm) (w' : World Address) : Prop :=
  match action with
  | .call env c => c.Typed ∧ exec env w c = .ok w'
  | .external tokens =>
      (∀ token, w.tokens token amm ≤ tokens token amm) ∧ w' = { w with tokens }

def Initial (amm : Address) (w : World Address) : Prop :=
  ∃ (tokenA tokenB : Address) (feeBps : ℕ) (tickSpacing : ℤ) (initialSqrtPrice : ℕ)
    (initialTick : ℤ) (tokens : Tokens Address),
    (∀ token, 0 ≤ tokens token amm) ∧ feeBps < 2 ^ 32 ∧ IsI32 tickSpacing ∧
      initialSqrtPrice < 2 ^ 128 ∧ IsI32 initialTick ∧
      initializePool tokenA tokenB feeBps tickSpacing initialSqrtPrice initialTick { tokens } =
        .ok w

end Contract

end ConcentratedAmm
