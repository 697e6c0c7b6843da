import Perigee.ConcentratedAmm.Contract
import Perigee.ConcentratedAmm.SqrtRatio

/-!
# What the calls of the concentrated AMM do

One lemma for each entry point says what its success implies: which checks passed, what was computed
and what the new state is.
-/

namespace ConcentratedAmm

open Soroban

variable {p q liquidity amount : ℕ}

theorem ofMath_ok_iff {α : Type} {x : Outcome MathError α} {a : α} :
    ofMath x = .ok a ↔ x = .ok a := by
  rcases x with (_ | _) | _ <;> simp [ofMath]

theorem unwrapOr_ok {α : Type} {x : Outcome MathError α} {d a : α}
    (h : unwrapOr x d = .ok a) : x = .ok a ∨ a = d := by
  rcases x with (_ | _) | b
  · exact .inr (Except.ok.inj h).symm
  · cases h
  · obtain rfl := Except.ok.inj h
    exact .inl rfl

/-! ## Amounts -/

theorem mulDivU128_lt {a b d r : ℕ} (h : mulDivU128 a b d = .ok r) : r < 2 ^ 128 := by
  unfold mulDivU128 at h
  split_ifs at h with zero small overflow
  · obtain rfl := Except.ok.inj h
    exact (Nat.div_le_self _ _).trans_lt small
  · obtain rfl := Except.ok.inj h
    refine (LongDivision.divide_le 128 (not_le.1 overflow)).trans_lt ?_
    rw [zero_add, wideMul_dividend]
    exact (quotient_lt_iff (Nat.pos_of_ne_zero zero)).2 (not_le.1 overflow)

theorem ite_lt_left (le : p ≤ q) : (if p < q then p else q) = p := by
  split_ifs <;> omega

theorem ite_lt_right (le : p ≤ q) : (if p < q then q else p) = q := by
  split_ifs <;> omega

theorem getAmount0Delta_ok (h : getAmount0Delta p q liquidity = .ok amount) (le : p ≤ q) :
    0 < p ∧ amount * (p * q) ≤ liquidity * q64 * (q - p) ∧ amount < 2 ^ 128 := by
  unfold getAmount0Delta at h
  rw [ite_lt_left le, ite_lt_right le] at h
  simp only [bind_ok_iff, checkedSub_ok_iff] at h
  obtain ⟨num1, h1, _, ⟨-, rfl⟩, h⟩ := h
  obtain ⟨-, first⟩ := mulDivU128_le h1
  obtain ⟨pos, second⟩ := mulDivU128_le h
  refine ⟨pos, ?_, mulDivU128_lt h⟩
  calc amount * (p * q) = amount * p * q := by ring
    _ ≤ num1 * (q - p) * q := Nat.mul_le_mul_right _ ((Nat.le_div_iff_mul_le pos).1 second)
    _ = num1 * q * (q - p) := by ring
    _ ≤ liquidity * q64 * (q - p) := Nat.mul_le_mul_right _ (Nat.mul_le_of_le_div _ _ _ first)

theorem getAmount1Delta_ok_iff (le : p ≤ q) :
    getAmount1Delta p q liquidity = .ok amount ↔
      liquidity * (q - p) / q64 < 2 ^ 128 ∧ liquidity * (q - p) / q64 = amount := by
  unfold getAmount1Delta
  rw [ite_lt_left le, ite_lt_right le]
  simp only [bind_ok_iff, checkedSub_ok_iff]
  constructor
  · rintro ⟨_, ⟨-, rfl⟩, h⟩
    exact ((mulDivU128_ok_iff q64_le_half).1 h).2
  · exact fun h => ⟨_, ⟨le, rfl⟩, (mulDivU128_ok_iff q64_le_half).2 ⟨q64_pos, h⟩⟩

section Contract

variable {Address : Type} [DecidableEq Address] {amm : Address} {env : Env amm}
  {w w' : World Address} {pool : Pool Address} {owner : Address} {lo hi : ℤ} {t t' : Tokens Address}
  {token src dst : Address} {amount a b price ratioA ratioB x y liquidity amountA amountB : ℕ}
  {before pos : PositionInfo} {inside : ℕ × ℕ}

/-! ## Payments -/

theorem payIfPositive_ok (range : amount < 2 ^ 128)
    (h : payIfPositive t token src dst amount = .ok t') :
    (amount : ℤ) ≤ max 0 (t token src) ∧ amount < 2 ^ 127 ∧
      ∀ k a, t' k a = t k a - (if k = token ∧ a = src then (amount : ℤ) else 0) +
        (if k = token ∧ a = dst then (amount : ℤ) else 0) := by
  unfold payIfPositive at h
  split_ifs at h with positive
  · obtain ⟨nonneg, enough, -⟩ := Tokens.transfer_ok_iff.1 h
    have small := lt_of_asI128_nonneg range nonneg
    have apply := Tokens.transfer_apply h
    rw [asI128_of_lt small] at enough apply
    exact ⟨le_max_of_le_right enough, small, apply⟩
  · obtain rfl := pure_ok_iff.1 h
    obtain rfl : amount = 0 := by omega
    refine ⟨by simp, by norm_num, fun k a => ?_⟩
    simp

theorem payIfPositive_succeeds (small : amount < 2 ^ 127) (enough : (amount : ℤ) ≤ t token src) :
    ∃ t', payIfPositive t token src dst amount = .ok t' := by
  unfold payIfPositive
  split_ifs
  · refine ⟨_, Tokens.transfer_ok_iff.2 ⟨?_, ?_, rfl⟩⟩ <;> rw [asI128_of_lt small]
    · exact Int.natCast_nonneg _
    · exact enough
  · exact ⟨t, rfl⟩

theorem payBoth_in (other : src ≠ amm) (ha : a < 2 ^ 128) (hb : b < 2 ^ 128)
    (h : payBoth pool t src amm a b = .ok t') :
    a < 2 ^ 127 ∧ b < 2 ^ 127 ∧ ∀ k, t' k amm = t k amm +
      (if k = pool.tokenA then (a : ℤ) else 0) + (if k = pool.tokenB then (b : ℤ) else 0) := by
  obtain ⟨_, first, second⟩ := bind_ok_iff.1 h
  obtain ⟨-, smallA, applyA⟩ := payIfPositive_ok ha first
  obtain ⟨-, smallB, applyB⟩ := payIfPositive_ok hb second
  refine ⟨smallA, smallB, fun k => ?_⟩
  rw [applyB, applyA]
  simp [other.symm]

theorem payBoth_out (other : dst ≠ amm) (ha : a < 2 ^ 128) (hb : b < 2 ^ 128)
    (h : payBoth pool t amm dst a b = .ok t') :
    (∀ k, t' k amm = t k amm -
      (if k = pool.tokenA then (a : ℤ) else 0) - (if k = pool.tokenB then (b : ℤ) else 0)) ∧
    ((∀ k, 0 ≤ t k amm) → ∀ k, 0 ≤ t' k amm) := by
  obtain ⟨t₁, first, second⟩ := bind_ok_iff.1 h
  obtain ⟨coveredA, -, applyA⟩ := payIfPositive_ok ha first
  obtain ⟨coveredB, -, applyB⟩ := payIfPositive_ok hb second
  have afterA : ∀ k, t₁ k amm = t k amm - if k = pool.tokenA then (a : ℤ) else 0 := by
    intro k
    rw [applyA]
    simp [other.symm]
  have afterB : ∀ k, t' k amm = t₁ k amm - if k = pool.tokenB then (b : ℤ) else 0 := by
    intro k
    rw [applyB]
    simp [other.symm]
  refine ⟨fun k => by rw [afterB, afterA], fun nonneg k => ?_⟩
  have nonneg₁ : ∀ k, 0 ≤ t₁ k amm := by
    intro k
    rw [afterA]
    split_ifs with same
    · subst same
      rw [max_eq_right (nonneg _)] at coveredA
      omega
    · simpa using nonneg k
  rw [afterB]
  split_ifs with same
  · subst same
    rw [max_eq_right (nonneg₁ _)] at coveredB
    omega
  · simpa using nonneg₁ k

theorem payBoth_succeeds (pool : Pool Address) (ha : a < 2 ^ 127)
    (hb : b < 2 ^ 127) (enough : ∀ k, (if k = pool.tokenA then (a : ℤ) else 0) +
      (if k = pool.tokenB then (b : ℤ) else 0) ≤ t k amm) :
    ∃ t', payBoth pool t amm dst a b = .ok t' := by
  have enoughA := enough pool.tokenA
  have enoughB := enough pool.tokenB
  rw [if_pos rfl] at enoughA
  rw [if_pos (rfl : pool.tokenB = pool.tokenB)] at enoughB
  obtain ⟨t₁, first⟩ : ∃ t₁, payIfPositive t pool.tokenA amm dst a = .ok t₁ :=
    payIfPositive_succeeds ha (by split_ifs at enoughA <;> omega)
  have after := (payIfPositive_ok (ha.trans (by norm_num)) first).2.2 pool.tokenB amm
  apply bind_succeeds first
  refine payIfPositive_succeeds hb ?_
  rw [after]
  by_cases same : pool.tokenB = pool.tokenA
  · rw [if_pos same] at enoughB
    omega
  · simp only [same, false_and, if_false]
    omega

/-! ## Liquidity -/

theorem accrue_ok (h : accrue before inside = .ok pos) :
    ∃ fee0 fee1,
      unwrapOr (mulDivU128 before.liquidity
        (wrappingSub inside.1 before.feeGrowthInside0Last) q64) 0 = .ok fee0 ∧
      unwrapOr (mulDivU128 before.liquidity
        (wrappingSub inside.2 before.feeGrowthInside1Last) q64) 0 = .ok fee1 ∧
      pos = ⟨before.liquidity, inside.1, inside.2, before.tokensOwed0 + fee0,
        before.tokensOwed1 + fee1⟩ ∧
      before.tokensOwed0 + fee0 < 2 ^ 128 ∧ before.tokensOwed1 + fee1 < 2 ^ 128 := by
  unfold accrue at h
  simp only [ok_iff] at h
  obtain ⟨fee0, h0, _, ⟨fits0, rfl⟩, fee1, h1, _, ⟨fits1, rfl⟩, rfl⟩ := h
  exact ⟨fee0, fee1, h0, h1, rfl, fits0, fits1⟩

theorem accrue_lt (h : accrue before inside = .ok pos) :
    pos.tokensOwed0 < 2 ^ 128 ∧ pos.tokensOwed1 < 2 ^ 128 := by
  obtain ⟨_, _, -, -, rfl, fits⟩ := accrue_ok h
  exact fits

theorem accrue_liquidity (h : accrue before inside = .ok pos) :
    pos.liquidity = before.liquidity := by
  obtain ⟨_, _, -, -, rfl, -⟩ := accrue_ok h
  rfl

structure IsRange (tickSpacing lo hi : ℤ) : Prop where
  lt : lo < hi
  spacing : tickSpacing ≠ 0
  lower : tickSpacing ∣ lo
  upper : tickSpacing ∣ hi
  validLower : ValidTick lo
  validUpper : ValidTick hi

omit [DecidableEq Address] in
/-- The liquidity of a mint and its charge, by where the price is: at or below the range, at or
above it, or inside. -/
theorem mintAmounts_ok
    (h : mintAmounts price ratioA ratioB x y = .ok (liquidity, amountA, amountB)) :
    (price ≤ ratioA ∧ amountA = x ∧ amountB = 0 ∧
      liquidity * (ratioB - ratioA) * q64 ≤ x * (ratioA * ratioB)) ∨
    (ratioA < price ∧ ratioB ≤ price ∧ amountA = 0 ∧ amountB = y ∧
      liquidity * (ratioB - ratioA) ≤ y * q64) ∨
    (ratioA < price ∧ price < ratioB ∧ getAmount0Delta price ratioB liquidity = .ok amountA ∧
      getAmount1Delta ratioA price liquidity = .ok amountB) := by
  unfold mintAmounts at h
  split_ifs at h with below above <;>
    simp only [ok_iff, checkedSub_ok_iff, ofMath_ok_iff] at h
  · obtain ⟨num1, h1, num2, h2, _, ⟨-, rfl⟩, _, hl, rfl, rfl, rfl⟩ := h
    have first := Nat.mul_le_of_le_div _ _ _ (mulDivU128_le h1).2
    have second := Nat.mul_le_of_le_div _ _ _ (mulDivU128_le h2).2
    have third := Nat.mul_le_of_le_div _ _ _ (mulDivU128_le hl).2
    refine .inl ⟨below, rfl, rfl, ?_⟩
    calc _ ≤ num2 * q64 * q64 := Nat.mul_le_mul_right _ third
      _ ≤ num1 * ratioA * q64 := Nat.mul_le_mul_right _ second
      _ = num1 * q64 * ratioA := by ring
      _ ≤ x * ratioB * ratioA := Nat.mul_le_mul_right _ first
      _ = x * (ratioA * ratioB) := by ring
  · obtain ⟨_, ⟨-, rfl⟩, _, hl, rfl, rfl, rfl⟩ := h
    have bound := Nat.mul_le_of_le_div _ _ _ (mulDivU128_le hl).2
    exact .inr (.inl ⟨not_le.1 below, above, rfl, rfl, bound⟩)
  · obtain ⟨_, -, _, -, _, -, _, -, _, -, _, -, _, ha, _, hb, rfl, rfl, rfl⟩ := h
    exact .inr (.inr ⟨not_le.1 below, not_le.1 above, ha, hb⟩)

omit [DecidableEq Address] in
theorem mintAmounts_lt (hx : x < 2 ^ 128) (hy : y < 2 ^ 128)
    (h : mintAmounts price ratioA ratioB x y = .ok (liquidity, amountA, amountB)) :
    amountA < 2 ^ 128 ∧ amountB < 2 ^ 128 := by
  rcases mintAmounts_ok h with ⟨-, rfl, rfl, -⟩ | ⟨-, -, rfl, rfl, -⟩ | ⟨lower, upper, hA, hB⟩
  · exact ⟨hx, by norm_num⟩
  · exact ⟨by norm_num, hy⟩
  · obtain ⟨fits, rfl⟩ := (getAmount1Delta_ok_iff lower.le).1 hB
    exact ⟨(getAmount0Delta_ok hA upper.le).2.2, fits⟩

theorem mint_ok (hp : w.pool = some pool)
    (h : mint env owner lo hi x y w = .ok ((liquidity, amountA, amountB), w')) :
    ∃ tokens ticks tickBitmap pos active, env.auth owner = true ∧ IsRange pool.tickSpacing lo hi ∧
      mintAmounts pool.currentSqrtPrice (sqrtRatio lo) (sqrtRatio hi) x y =
        .ok (liquidity, amountA, amountB) ∧
      liquidity ≠ 0 ∧ payBoth pool w.tokens owner amm amountA amountB = .ok tokens ∧
      updateRange pool w.ticks w.tickBitmap lo hi (asI128 liquidity) = .ok (ticks, tickBitmap) ∧
      accrue (w.positions.getD (owner, lo, hi)
        ⟨0, (feeGrowthInside pool ticks lo hi).1, (feeGrowthInside pool ticks lo hi).2, 0, 0⟩)
        (feeGrowthInside pool ticks lo hi) = .ok pos ∧
      pos.liquidity + liquidity < 2 ^ 128 ∧
      activeLiquidity pool.currentTick lo hi pool.liquidity
        (u128 (pool.liquidity + liquidity)) = .ok active ∧
      w' = { w with
        pool := some { pool with liquidity := active }
        ticks, tickBitmap, tokens
        positions := w.positions.set (owner, lo, hi)
          { pos with liquidity := pos.liquidity + liquidity } } := by
  unfold mint at h
  simp only [ok_iff, requireAuth_ok_iff, remI32_ok_iff, ofMath_ok_iff, getSqrtRatioAtTick_ok_iff,
    not_le, not_not] at h
  obtain ⟨_, auth, p, hp', _, lt, _, ⟨spacing, -, rfl⟩, _, lower, _, ⟨-, -, rfl⟩, _, upper,
    _, ⟨validLower, rfl⟩, _, ⟨validUpper, rfl⟩, ⟨_, _, _⟩, amounts, _, nonzero, tokens, paid,
    ⟨ticks, tickBitmap⟩, range, pos, accrued, _, ⟨fits, rfl⟩, active, hactive, ⟨rfl, rfl, rfl⟩,
    rfl⟩ := h
  obtain rfl := Option.mem_unique hp hp'
  exact ⟨tokens, ticks, tickBitmap, pos, active, auth,
    ⟨lt, spacing, Int.dvd_of_tmod_eq_zero lower, Int.dvd_of_tmod_eq_zero upper, validLower,
      validUpper⟩, amounts, nonzero, paid, range, accrued, fits, hactive, rfl⟩

omit [DecidableEq Address] in
theorem burnAmounts_lt {currentTick : ℤ}
    (h : burnAmounts currentTick lo hi price ratioA ratioB liquidity = .ok (amountA, amountB)) :
    amountA < 2 ^ 128 ∧ amountB < 2 ^ 128 := by
  have first : ∀ {p q l r : ℕ}, getAmount0Delta p q l = .ok r → r < 2 ^ 128 := by
    intro p q l r h
    obtain ⟨_, -, h⟩ := bind_ok_iff.1 h
    obtain ⟨_, -, h⟩ := bind_ok_iff.1 h
    exact mulDivU128_lt h
  have second : ∀ {p q l r : ℕ}, getAmount1Delta p q l = .ok r → r < 2 ^ 128 := by
    intro p q l r h
    obtain ⟨_, -, h⟩ := bind_ok_iff.1 h
    exact mulDivU128_lt h
  unfold burnAmounts at h
  split_ifs at h <;> simp only [ok_iff, Prod.mk.injEq, ofMath_ok_iff] at h
  · obtain ⟨_, ha, rfl, rfl⟩ := h
    exact ⟨first ha, by norm_num⟩
  · obtain ⟨_, hb, rfl, rfl⟩ := h
    exact ⟨by norm_num, second hb⟩
  · obtain ⟨_, ha, _, hb, rfl, rfl⟩ := h
    exact ⟨first ha, second hb⟩

/-- The positions after a position was changed to `pos`: an empty one is deleted. -/
def burnedPositions (positions : Positions Address) (owner : Address) (lo hi : ℤ)
    (pos : PositionInfo) : Positions Address :=
  if pos.liquidity = 0 ∧ pos.tokensOwed0 = 0 ∧ pos.tokensOwed1 = 0 then
    positions.remove (owner, lo, hi)
  else positions.set (owner, lo, hi) pos

theorem burn_ok (hp : w.pool = some pool)
    (h : burn env owner lo hi liquidity w = .ok ((amountA, amountB), w')) :
    ∃ before pos ticks tickBitmap active tokens, env.auth owner = true ∧
      w.positions.lookup (owner, lo, hi) = some before ∧ liquidity ≤ before.liquidity ∧
      ValidTick lo ∧ ValidTick hi ∧
      burnAmounts pool.currentTick lo hi pool.currentSqrtPrice (sqrtRatio lo) (sqrtRatio hi)
        liquidity = .ok (amountA, amountB) ∧
      accrue before (feeGrowthInside pool w.ticks lo hi) = .ok pos ∧
      IsI128 (-asI128 liquidity) ∧
      updateRange pool w.ticks w.tickBitmap lo hi (-asI128 liquidity) = .ok (ticks, tickBitmap) ∧
      activeLiquidity pool.currentTick lo hi pool.liquidity
        (subU128 pool.liquidity liquidity) = .ok active ∧
      payBoth pool w.tokens amm owner amountA amountB = .ok tokens ∧
      w' = { w with
        pool := some { pool with liquidity := active }
        ticks, tickBitmap, tokens
        positions := burnedPositions w.positions owner lo hi
          { pos with liquidity := pos.liquidity - liquidity } } := by
  unfold burn at h
  simp only [ok_iff, requireAuth_ok_iff, ofMath_ok_iff, getSqrtRatioAtTick_ok_iff, not_lt] at h
  obtain ⟨_, auth, before, hb, _, enough, p, hp', _, ⟨validLower, rfl⟩, _, ⟨validUpper, rfl⟩,
    ⟨_, _⟩, amounts, pos, accrued, _, ⟨-, rfl⟩, _, ⟨fits, rfl⟩, ⟨ticks, tickBitmap⟩, range, active,
    hactive, tokens, paid, ⟨rfl, rfl⟩, rfl⟩ := h
  obtain rfl := Option.mem_unique hp hp'
  exact ⟨before, pos, ticks, tickBitmap, active, tokens, auth, hb, enough, validLower, validUpper,
    amounts, accrued, fits, range, hactive, paid, rfl⟩

def collectedPositions (positions : Positions Address) (owner : Address) (lo hi : ℤ)
    (pos : PositionInfo) : Positions Address :=
  if pos.liquidity = 0 then positions.remove (owner, lo, hi)
  else positions.set (owner, lo, hi) { pos with tokensOwed0 := 0, tokensOwed1 := 0 }

theorem collectFees_ok {amount0 amount1 : ℕ}
    (hp : w.pool = some pool)
    (h : collectFees env owner lo hi w = .ok ((amount0, amount1), w')) :
    ∃ before pos tokens, env.auth owner = true ∧
      w.positions.lookup (owner, lo, hi) = some before ∧
      accrue before (feeGrowthInside pool w.ticks lo hi) = .ok pos ∧
      pos.tokensOwed0 = amount0 ∧ pos.tokensOwed1 = amount1 ∧
      payBoth pool w.tokens amm owner pos.tokensOwed0 pos.tokensOwed1 = .ok tokens ∧
      w' = { w with positions := collectedPositions w.positions owner lo hi pos, tokens } := by
  unfold collectFees at h
  simp only [ok_iff, Prod.mk.injEq, requireAuth_ok_iff] at h
  obtain ⟨_, auth, before, hb, p, hp', pos, accrued, tokens, paid, ⟨owed0, owed1⟩, rfl⟩ := h
  obtain rfl := Option.mem_unique hp hp'
  exact ⟨before, pos, tokens, auth, hb, accrued, owed0, owed1, paid, rfl⟩

theorem swap_ok {zeroForOne : Bool} {amountSpecified budget amountIn amountOut : ℕ}
    (hp : w.pool = some pool)
    (h : swap env owner zeroForOne amountSpecified budget w = .ok ((amountIn, amountOut), w')) :
    ∃ s tokens₁ tokens, env.auth owner = true ∧
      swapLoop (swapConfig pool w zeroForOne) budget (swapStart pool w amountSpecified) = .ok s ∧
      s.amountIn = amountIn ∧ s.amountOut = amountOut ∧
      w.tokens.transfer (if zeroForOne then pool.tokenA else pool.tokenB) owner amm
        (asI128 s.amountIn) = (.ok tokens₁ : Outcome Error _) ∧
      tokens₁.transfer (if zeroForOne then pool.tokenB else pool.tokenA) amm owner
        (asI128 s.amountOut) = (.ok tokens : Outcome Error _) ∧
      w' = { w with pool := some (pool.afterSwap s), ticks := s.ticks, tokens } := by
  unfold swap at h
  simp only [ok_iff, Prod.mk.injEq, requireAuth_ok_iff] at h
  obtain ⟨_, auth, p, hp', s, loop, tokens₁, first, tokens, second, ⟨hin, hout⟩, rfl⟩ := h
  obtain rfl := Option.mem_unique hp hp'
  exact ⟨s, tokens₁, tokens, auth, loop, hin, hout, first, second, rfl⟩

end Contract

/-! ## The swap loop -/

variable {cfg : SwapConfig} {s s' : SwapState}

def lessFee (cfg : SwapConfig) (s : SwapState) : ℕ :=
  s.amountRemaining * (10000 - cfg.feeBps) / 10000

/-- The current tick after the tick `next` was crossed. -/
def tickBeyond (zeroForOne : Bool) (next : ℤ) : ℤ := if zeroForOne then next - 1 else next

theorem tickAfter_ok {zeroForOne : Bool} {next tick : ℤ}
    (h : tickAfter zeroForOne next = .ok tick) : tick = tickBeyond zeroForOne next := by
  unfold tickAfter at h
  unfold tickBeyond
  split_ifs at h ⊢ with down
  · exact (i32_ok_iff.1 h).2.symm
  · exact (pure_ok_iff.1 h).symm

/-- The loop variables after the amounts and the fee of a step are accounted for. -/
structure Settled (zeroForOne : Bool) (amountInStep amountOutStep feeAmount growth : ℕ)
    (s s' : SwapState) : Prop where
  growth_eq : mulDivU128 feeAmount q64 s.liquidity = .ok growth
  sqrtPrice : s'.sqrtPrice = s.sqrtPrice
  tick : s'.tick = s.tick
  liquidity : s'.liquidity = s.liquidity
  ticks : s'.ticks = s.ticks
  fg0 : s'.fg0 = if zeroForOne then wrappingAdd s.fg0 growth else s.fg0
  fg1 : s'.fg1 = if zeroForOne then s.fg1 else wrappingAdd s.fg1 growth
  amountIn : s'.amountIn = s.amountIn + (amountInStep + feeAmount)
  amountOut : s'.amountOut = s.amountOut + amountOutStep
  amountIn_lt : s'.amountIn < 2 ^ 128
  amountOut_lt : s'.amountOut < 2 ^ 128

theorem settle_ok {zeroForOne : Bool} {amountInStep amountOutStep feeAmount : ℕ}
    (h : settle zeroForOne amountInStep amountOutStep feeAmount s = .ok s') :
    ∃ growth, Settled zeroForOne amountInStep amountOutStep feeAmount growth s s' := by
  unfold settle at h
  simp only [ok_iff, ofMath_ok_iff] at h
  obtain ⟨growth, hg, _, ⟨-, rfl⟩, _, ⟨inFits, rfl⟩, _, ⟨outFits, rfl⟩, rfl⟩ := h
  exact ⟨growth, hg, rfl, rfl, rfl, rfl, rfl, rfl, rfl, rfl, inFits, outFits⟩

def search (cfg : SwapConfig) (s : SwapState) : Outcome Error (ℤ × Bool) :=
  nextInitializedTickWithinOneWord cfg.tickBitmap s.tick cfg.tickSpacing cfg.zeroForOne

def maxAmountIn (cfg : SwapConfig) (s : SwapState) (next : ℤ) : Outcome Error ℕ :=
  unwrapOr (amountInDelta cfg.zeroForOne s.sqrtPrice (sqrtRatio next) s.liquidity) (2 ^ 128 - 1)

/-- The iteration uses up the liquidity to the tick found, and crosses it. -/
def Crosses (cfg : SwapConfig) (s : SwapState) (found : ℤ × Bool) : Prop :=
  found.2 = true ∧ ∃ most, maxAmountIn cfg s found.1 = .ok most ∧ most ≤ lessFee cfg s

instance (found : ℤ × Bool) : Decidable (Crosses cfg s found) :=
  inferInstanceAs (Decidable (_ ∧ _))

/-- The three kinds of iteration: without liquidity the loop jumps to the next tick; with liquidity
it crosses the next tick or spends all of its input before it. -/
inductive Move (cfg : SwapConfig) (s s' : SwapState) : Prop where
  | jump (next : ℤ) (empty : s.liquidity = 0) (found : search cfg s = .ok (next, true))
      (liquidity : ℕ) (ticks : Ticks)
      (crossed : crossIfPresent cfg.zeroForOne next s = .ok (ticks, liquidity))
      (valid : ValidTick (tickBeyond cfg.zeroForOne next))
      (result : s' = { s with
        sqrtPrice := sqrtRatio (tickBeyond cfg.zeroForOne next)
        tick := tickBeyond cfg.zeroForOne next, liquidity, ticks })
  | cross (next : ℤ) (active : s.liquidity ≠ 0) (found : search cfg s = .ok (next, true))
      (valid : ValidTick next) (fee : cfg.feeBps ≤ 10000) (crosses : Crosses cfg s (next, true))
      (amountIn amountOut feeAmount growth : ℕ) (paid : maxAmountIn cfg s next = .ok amountIn)
      (out : amountOutDelta cfg.zeroForOne s.sqrtPrice (sqrtRatio next) s.liquidity =
        .ok amountOut)
      (mid : SwapState)
      (settled : Settled cfg.zeroForOne amountIn amountOut feeAmount growth s mid)
      (info : TickInfo) (record : s.ticks.lookup next = some info) (liquidity : ℕ)
      (net : crossedLiquidity cfg.zeroForOne s.liquidity info.liquidityNet = .ok liquidity)
      (result : s' = { mid with
        sqrtPrice := sqrtRatio next, tick := tickBeyond cfg.zeroForOne next, liquidity
        ticks := s.ticks.set next (crossedTick info mid.fg0 mid.fg1) })
  | within (next : ℤ) (initialized : Bool) (active : s.liquidity ≠ 0)
      (found : search cfg s = .ok (next, initialized)) (fee : cfg.feeBps ≤ 10000)
      (before : ¬ Crosses cfg s (next, initialized)) (sqrtPrice amountOut feeAmount growth : ℕ)
      (moved : getNextSqrtPriceFromInput s.sqrtPrice s.liquidity (lessFee cfg s)
        cfg.zeroForOne = .ok sqrtPrice)
      (out : amountOutDelta cfg.zeroForOne s.sqrtPrice sqrtPrice s.liquidity = .ok amountOut)
      (mid : SwapState)
      (settled : Settled cfg.zeroForOne (lessFee cfg s) amountOut feeAmount growth s mid)
      (result : s' = { mid with sqrtPrice })

theorem jump_moves (empty : s.liquidity = 0) (h : jump cfg s = .ok (some s')) : Move cfg s s' := by
  obtain ⟨⟨next, _⟩, found, h⟩ := bind_ok_iff.1 h
  dsimp only at h
  split_ifs at h with on
  · simp only [ok_iff, Option.some.injEq, ofMath_ok_iff, getSqrtRatioAtTick_ok_iff] at h
    obtain ⟨⟨ticks, liquidity⟩, crossed, _, after, _, ⟨valid, rfl⟩, rfl⟩ := h
    obtain rfl := tickAfter_ok after
    exact .jump next empty (by rw [← on]; exact found) liquidity ticks crossed valid rfl
  · cases pure_ok_iff.1 h

theorem tradeStep_ok (h : tradeStep cfg s = .ok s') :
    ∃ next initialized most, search cfg s = .ok (next, initialized) ∧ ValidTick next ∧
      cfg.feeBps ≤ 10000 ∧ maxAmountIn cfg s next = .ok most ∧
      (if Crosses cfg s (next, initialized) then
        crossStep cfg next (sqrtRatio next) (10000 - cfg.feeBps) most s
      else withinStep cfg (lessFee cfg s) s) = .ok s' := by
  unfold tradeStep at h
  simp only [ok_iff, ofMath_ok_iff, getSqrtRatioAtTick_ok_iff,
    mulDivU128_ok_iff (show 10000 ≤ 2 ^ 127 by norm_num)] at h
  obtain ⟨⟨next, initialized⟩, found, _, ⟨valid, rfl⟩, _, ⟨fee, rfl⟩, _, ⟨-, -, rfl⟩, most, paid,
    h⟩ := h
  refine ⟨next, initialized, most, found, valid, fee, paid, ?_⟩
  have crosses : Crosses cfg s (next, initialized) ↔ most ≤ lessFee cfg s ∧ initialized = true := by
    constructor
    · rintro ⟨on, _, paid', enough⟩
      obtain rfl := Except.ok.inj (paid.symm.trans paid')
      exact ⟨enough, on⟩
    · exact fun ⟨enough, on⟩ => ⟨on, most, paid, enough⟩
  simp only [crosses]
  exact h

theorem tradeStep_moves (active : s.liquidity ≠ 0) (h : tradeStep cfg s = .ok s') :
    Move cfg s s' := by
  obtain ⟨next, initialized, most, found, valid, fee, paid, h⟩ := tradeStep_ok h
  split_ifs at h with crosses
  · unfold crossStep at h
    simp only [ok_iff, ofMath_ok_iff] at h
    obtain ⟨amountOut, out, feeAmount, -, mid, settled, _, after, info, record, liquidity, net,
      rfl⟩ := h
    obtain ⟨growth, settled⟩ := settle_ok settled
    obtain rfl := tickAfter_ok after
    obtain rfl : initialized = true := crosses.1
    rw [settled.liquidity] at net
    rw [settled.ticks] at record
    refine .cross next active found valid fee crosses most amountOut feeAmount growth paid out mid
      settled info record liquidity net ?_
    rw [settled.ticks]
  · unfold withinStep at h
    simp only [ok_iff, ofMath_ok_iff] at h
    obtain ⟨sqrtPrice, moved, amountOut, out, feeAmount, -, mid, settled, rfl⟩ := h
    obtain ⟨growth, settled⟩ := settle_ok settled
    exact .within next initialized active found fee crosses sqrtPrice amountOut feeAmount growth
      moved out mid settled rfl

theorem swapStep_moves (h : swapStep cfg s = .ok (some s')) : Move cfg s s' := by
  unfold swapStep at h
  split_ifs at h with empty
  · exact jump_moves empty h
  · obtain ⟨_, step, h⟩ := bind_ok_iff.1 h
    obtain rfl := Option.some.inj (pure_ok_iff.1 h)
    exact tradeStep_moves empty step

/-- Every iteration of the loop starts in a state that meets `cond`. -/
def EveryIteration (cond : SwapState → Prop) (cfg : SwapConfig) : ℕ → SwapState → Prop
  | 0, _ => True
  | budget + 1, s => 0 < s.amountRemaining →
      cond s ∧ ∀ next, swapStep cfg s = .ok next → ∀ s' ∈ next, EveryIteration cond cfg budget s'

instance EveryIteration.decidable {cond : SwapState → Prop} [DecidablePred cond] :
    ∀ budget s, Decidable (EveryIteration cond cfg budget s)
  | 0, _ => isTrue trivial
  | budget + 1, _ =>
    have : ∀ s, Decidable (EveryIteration cond cfg budget s) := EveryIteration.decidable budget
    inferInstanceAs (Decidable (_ → _))

theorem swapLoop_invariant {cond P : SwapState → Prop}
    (keep : ∀ s s', P s → cond s → Move cfg s s' → P s') {budget : ℕ} (start : P s)
    (every : EveryIteration cond cfg budget s) (h : swapLoop cfg budget s = .ok s') : P s' := by
  induction budget generalizing s with
  | zero => cases h
  | succ _ ih =>
    rw [swapLoop] at h
    split_ifs at h with more
    · obtain ⟨next, step, h⟩ := bind_ok_iff.1 h
      obtain ⟨meets, rest⟩ := every more
      cases next with
      | none =>
        obtain rfl := pure_ok_iff.1 h
        exact start
      | some s₁ => exact ih (keep s s₁ start meets (swapStep_moves step)) (rest _ step _ rfl) h
    · obtain rfl := pure_ok_iff.1 h
      exact start

theorem everyIteration_true (budget : ℕ) (s : SwapState) :
    EveryIteration (fun _ => True) cfg budget s := by
  induction budget generalizing s with
  | zero => exact trivial
  | succ _ ih => exact fun _ => ⟨trivial, fun _ _ s' _ => ih s'⟩

theorem swapLoop_keeps {P : SwapState → Prop} (keep : ∀ s s', P s → Move cfg s s' → P s')
    {budget : ℕ} (start : P s) (h : swapLoop cfg budget s = .ok s') : P s' :=
  swapLoop_invariant (fun s₁ s₂ held _ => keep s₁ s₂ held) start (everyIteration_true budget s) h

end ConcentratedAmm
