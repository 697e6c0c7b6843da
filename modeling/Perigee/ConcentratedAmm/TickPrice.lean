import Perigee.ConcentratedAmm.Effects

/-!
# The current tick and the current price

A swap updates the tick only when it crosses an initialized tick; an iteration that spends its input
before that moves the price alone.  So tick and price agree as long as those iterations leave the
price inside the current tick (`TickKept`), and no longer.
-/

namespace ConcentratedAmm

open Soroban

/-- The price is between the ratios of the tick and of the next tick. -/
def PriceInTick (tick : ℤ) (price : ℕ) : Prop :=
  (∃ ratio, getSqrtRatioAtTick tick = .ok ratio ∧ ratio ≤ price) ∧
    ∃ ratio, getSqrtRatioAtTick (tick + 1) = .ok ratio ∧ price ≤ ratio

instance (tick : ℤ) (price : ℕ) : Decidable (PriceInTick tick price) :=
  inferInstanceAs (Decidable (_ ∧ _))

theorem priceInTick_iff {tick : ℤ} {price : ℕ} :
    PriceInTick tick price ↔ ValidTick tick ∧ ValidTick (tick + 1) ∧
      sqrtRatio tick ≤ price ∧ price ≤ sqrtRatio (tick + 1) := by
  constructor
  · rintro ⟨⟨_, lower, le⟩, _, upper, ge⟩
    obtain ⟨valid, rfl⟩ := getSqrtRatioAtTick_ok_iff.1 lower
    obtain ⟨next, rfl⟩ := getSqrtRatioAtTick_ok_iff.1 upper
    exact ⟨valid, next, le, ge⟩
  · rintro ⟨valid, next, le, ge⟩
    exact ⟨⟨_, getSqrtRatioAtTick_of_valid valid, le⟩, _, getSqrtRatioAtTick_of_valid next, ge⟩

/-- The price is on the same side of tick `n` as the current tick. -/
def SameSide (tick : ℤ) (price : ℕ) (n : ℤ) : Prop :=
  (n ≤ tick → sqrtRatio n ≤ price) ∧ (tick < n → price ≤ sqrtRatio n)

instance (tick : ℤ) (price : ℕ) (n : ℤ) : Decidable (SameSide tick price n) :=
  inferInstanceAs (Decidable (_ ∧ _))

theorem PriceInTick.sides {tick n : ℤ} {price : ℕ} (agree : PriceInTick tick price)
    (valid : ValidTick n) : SameSide tick price n := by
  obtain ⟨current, next, le, ge⟩ := priceInTick_iff.1 agree
  exact ⟨fun below => (sqrtRatio_mono valid current below).trans le,
    fun above => ge.trans (sqrtRatio_mono next valid above)⟩

/-! ## The condition -/

/-- The input that is left moves the price no further than to the end of the current tick. -/
def StaysInTick (cfg : SwapConfig) (s : SwapState) : Prop :=
  if cfg.zeroForOne then
    s.liquidity + lessFee cfg s * s.sqrtPrice / q64 ≤ 2 ^ 127 ∧
      lessFee cfg s * s.sqrtPrice / q64 * sqrtRatio s.tick ≤
        s.liquidity * (s.sqrtPrice - sqrtRatio s.tick)
  else lessFee cfg s * q64 / s.liquidity ≤ sqrtRatio (s.tick + 1) - s.sqrtPrice

instance (cfg : SwapConfig) (s : SwapState) : Decidable (StaysInTick cfg s) := by
  unfold StaysInTick
  infer_instance

/-- The ratios are defined at both ends of the tick beyond `next`. -/
def InteriorBeyond (zeroForOne : Bool) (next : ℤ) : Prop :=
  ValidTick (tickBeyond zeroForOne next) ∧ ValidTick (tickBeyond zeroForOne next + 1)

instance (zeroForOne : Bool) (next : ℤ) : Decidable (InteriorBeyond zeroForOne next) :=
  inferInstanceAs (Decidable (_ ∧ _))

/-- An iteration that crosses a tick stays within the ticks that have ratios, and one that does not
stays in the current tick. -/
def TickKept (cfg : SwapConfig) (s : SwapState) : Prop :=
  ∀ found, search cfg s = .ok found →
    if s.liquidity = 0 ∨ Crosses cfg s found then InteriorBeyond cfg.zeroForOne found.1
    else StaysInTick cfg s

instance (cfg : SwapConfig) : DecidablePred (TickKept cfg) := fun s => by
  unfold TickKept
  infer_instance

section Contract

variable {Address : Type} [DecidableEq Address] {amm : Address} {w w' : World Address}

/-- Every iteration of a swap meets `cond`; other calls are not restricted. -/
def SwapMeets (cond : SwapConfig → SwapState → Prop) (w : World Address) : Action amm → Prop
  | .call _ (.swap _ zeroForOne amountSpecified budget) => ∀ pool ∈ w.pool,
      EveryIteration (cond (swapConfig pool w zeroForOne)) (swapConfig pool w zeroForOne) budget
        (swapStart pool w amountSpecified)
  | _ => True

instance (cond : SwapConfig → SwapState → Prop) [∀ cfg, DecidablePred (cond cfg)]
    (w : World Address) : ∀ action : Action amm, Decidable (SwapMeets cond w action)
  | .call _ (.swap ..) => inferInstanceAs (Decidable (∀ pool ∈ w.pool, _))
  | .call _ (.mint ..) => isTrue trivial
  | .call _ (.burn ..) => isTrue trivial
  | .call _ (.collectFees ..) => isTrue trivial
  | .external _ => isTrue trivial

def ConsistentInitial (amm : Address) (w : World Address) : Prop :=
  Initial amm w ∧ ∀ pool ∈ w.pool, PriceInTick pool.currentTick pool.currentSqrtPrice

end Contract

/-! ## The swap loop -/

variable {cfg : SwapConfig} {s s' : SwapState}

theorem nextPrice_down {price liquidity amount lower next : ℕ}
    (h : getNextSqrtPriceFromInput price liquidity amount true = .ok next)
    (below : lower ≤ price) (half : liquidity + amount * price / q64 ≤ 2 ^ 127) :
    next ≤ price ∧
      (0 < amount → (lower ≤ next ↔
        amount * price / q64 * lower ≤ liquidity * (price - lower))) := by
  unfold getNextSqrtPriceFromInput at h
  by_cases zero : amount = 0
  · rw [if_pos zero] at h
    obtain rfl := pure_ok_iff.1 h
    exact ⟨le_rfl, fun pos => absurd zero pos.ne'⟩
  · rw [if_neg zero] at h
    obtain ⟨delta, hd, h⟩ := bind_ok_iff.1 h
    obtain ⟨_, hden, h⟩ := bind_ok_iff.1 h
    obtain ⟨-, -, rfl⟩ := (mulDivU128_ok_iff q64_le_half).1 hd
    obtain ⟨-, rfl⟩ := checkedAddU128_ok_iff.1 hden
    obtain ⟨pos, -, rfl⟩ := (mulDivU128_ok_iff half).1 h
    constructor
    · apply Nat.div_le_of_le_mul
      rw [mul_comm]
      exact Nat.mul_le_mul_right _ (Nat.le_add_right _ _)
    · intro _
      rw [Nat.le_div_iff_mul_le pos]
      obtain ⟨_, rfl⟩ := Nat.exists_eq_add_of_le below
      rw [Nat.add_sub_cancel_left]
      constructor <;> intro _ <;> nlinarith

theorem nextPrice_up {price liquidity amount next : ℕ}
    (h : getNextSqrtPriceFromInput price liquidity amount false = .ok next) :
    price ≤ next ∧ next ≤ price + amount * q64 / liquidity := by
  unfold getNextSqrtPriceFromInput at h
  by_cases zero : amount = 0
  · rw [if_pos zero] at h
    obtain rfl := pure_ok_iff.1 h
    exact ⟨le_rfl, Nat.le_add_right _ _⟩
  · rw [if_neg zero] at h
    obtain ⟨_, hd, h⟩ := bind_ok_iff.1 h
    obtain ⟨-, rfl⟩ := checkedAddU128_ok_iff.1 h
    have bound := (mulDivU128_le hd).2
    exact ⟨Nat.le_add_right _ _, Nat.add_le_add_left bound _⟩

theorem move_priceInTick (agree : PriceInTick s.tick s.sqrtPrice) (kept : TickKept cfg s)
    (move : Move cfg s s') : PriceInTick s'.tick s'.sqrtPrice := by
  cases move with
  | jump _ empty found _ _ _ valid result =>
    have interior := kept _ found
    rw [if_pos (.inl empty)] at interior
    subst result
    exact priceInTick_iff.2
      ⟨valid, interior.2, le_rfl, sqrtRatio_mono valid interior.2 (lt_add_one _).le⟩
  | cross _ _ found valid _ crosses _ _ _ _ _ _ _ _ _ _ _ _ result =>
    have interior := kept _ found
    rw [if_pos (.inr crosses)] at interior
    subst result
    obtain ⟨beyond, after⟩ := interior
    refine priceInTick_iff.2 ⟨beyond, after, ?_⟩
    unfold tickBeyond at *
    split_ifs at * with down
    · rw [sub_add_cancel]
      exact ⟨sqrtRatio_mono beyond valid (by dsimp only; omega), le_rfl⟩
    · exact ⟨le_rfl, sqrtRatio_mono valid after (by dsimp only; omega)⟩
  | within _ _ active found _ before sqrtPrice _ _ _ moved _ mid settled result =>
    have stays := kept _ found
    rw [if_neg (not_or.2 ⟨active, before⟩)] at stays
    subst result
    change PriceInTick mid.tick sqrtPrice
    rw [settled.tick]
    obtain ⟨valid, after, lower, upper⟩ := priceInTick_iff.1 agree
    refine priceInTick_iff.2 ⟨valid, after, ?_⟩
    unfold StaysInTick at stays
    split_ifs at stays with down
    · rw [down] at moved
      obtain ⟨le, ge⟩ := nextPrice_down moved lower stays.1
      refine ⟨?_, le.trans upper⟩
      rcases Nat.eq_zero_or_pos (lessFee cfg s) with zero | positive
      · rw [zero, getNextSqrtPriceFromInput] at moved
        rw [← pure_ok_iff.1 moved]
        exact lower
      · exact (ge positive).2 stays.2
    · rw [Bool.not_eq_true] at down
      rw [down] at moved
      obtain ⟨ge, le⟩ := nextPrice_up moved
      exact ⟨lower.trans ge, by omega⟩

/-! ## Runs -/

section Contract

variable {Address : Type} [DecidableEq Address] {amm : Address} {w w' : World Address}

def Agrees (w : World Address) : Prop :=
  ∃ pool, w.pool = some pool ∧ PriceInTick pool.currentTick pool.currentSqrtPrice

theorem step_agrees {action : Action amm} (agrees : Agrees w)
    (kept : SwapMeets TickKept w action) (step : Step amm w action w') : Agrees w' := by
  obtain ⟨pool, hp, agree⟩ := agrees
  cases action with
  | external =>
    obtain ⟨-, rfl⟩ := step
    exact ⟨pool, hp, agree⟩
  | call _ c =>
    obtain ⟨-, step⟩ := step
    cases c with
    | mint =>
      obtain ⟨⟨_, a, b⟩, h⟩ := map_snd_ok_iff.1 step
      obtain ⟨tokens, ticks, bitmap, pos, active, -, -, -, -, -, -, -, -, -, rfl⟩ := mint_ok hp h
      exact ⟨_, rfl, agree⟩
    | burn =>
      obtain ⟨⟨a, b⟩, h⟩ := map_snd_ok_iff.1 step
      obtain ⟨before, pos, ticks, bitmap, active, tokens, -, -, -, -, -, -, -, -, -, -, -,
        rfl⟩ := burn_ok hp h
      exact ⟨_, rfl, agree⟩
    | collectFees =>
      obtain ⟨⟨a, b⟩, h⟩ := map_snd_ok_iff.1 step
      obtain ⟨before, pos, tokens, -, -, -, -, -, -, rfl⟩ := collectFees_ok hp h
      exact ⟨pool, hp, agree⟩
    | swap =>
      obtain ⟨⟨a, b⟩, h⟩ := map_snd_ok_iff.1 step
      obtain ⟨s, _, tokens, -, loop, -, -, -, -, rfl⟩ := swap_ok hp h
      exact ⟨_, rfl, swapLoop_invariant (P := fun s => PriceInTick s.tick s.sqrtPrice)
        (fun s _ => move_priceInTick) agree (kept pool hp) loop⟩

omit [DecidableEq Address] in
theorem initial_pool (init : Initial amm w) : ∃ pool, w.pool = some pool := by
  obtain ⟨_, _, _, _, _, _, _, -, -, -, -, -, h⟩ := init
  obtain rfl := pure_ok_iff.1 h
  exact ⟨_, rfl⟩

theorem agrees_of_kept
    (reach : Reachable (ConsistentInitial amm) (Guarded (SwapMeets TickKept) (Step amm)) w) :
    Agrees w := by
  refine reach.invariant (fun _ init => ?_)
    (fun _ _ _ agrees step => step_agrees agrees step.1 step.2)
  obtain ⟨pool, hp⟩ := initial_pool init.1
  exact ⟨pool, hp, init.2 pool hp⟩

/-- While the iterations of all swaps that cross no tick leave the price in the current tick, the
price lies between the ratios of the current tick and the next one, and on the same side of every
tick as the current tick. -/
theorem price_in_tick_of_kept
    (reach : Reachable (ConsistentInitial amm) (Guarded (SwapMeets TickKept) (Step amm)) w) :
    ∃ pool, w.pool = some pool ∧
      (∃ ratio, getSqrtRatioAtTick pool.currentTick = .ok ratio ∧
        ratio ≤ pool.currentSqrtPrice) ∧
      (∃ ratio, getSqrtRatioAtTick (pool.currentTick + 1) = .ok ratio ∧
        pool.currentSqrtPrice ≤ ratio) ∧
      ∀ n ratio, getSqrtRatioAtTick n = .ok ratio →
        (n ≤ pool.currentTick → ratio ≤ pool.currentSqrtPrice) ∧
        (pool.currentTick < n → pool.currentSqrtPrice ≤ ratio) := by
  obtain ⟨pool, hp, agree⟩ := agrees_of_kept reach
  refine ⟨pool, hp, agree.1, agree.2, fun n ratio h => ?_⟩
  obtain ⟨valid, rfl⟩ := getSqrtRatioAtTick_ok_iff.1 h
  exact agree.sides valid

end Contract

/-! ## A pool with two positions -/

def signed : Env 0 := ⟨0, fun a => a != 0, zero_unsigned⟩

def plenty : Tokens ℕ := fun _ holder => if holder = 0 then 0 else 2 ^ 100

/-- A pool without fees at tick 0, with a position around the price and one below it. -/
def twoRanges : Outcome Error (World ℕ) := do
  let w ← initializePool 8 9 0 1 q64 0 { tokens := plenty }
  let w ← exec signed w (.mint 1 (-100) 100 1000000 1000000)
  exec signed w (.mint 1 (-1000) (-500) 0 1000000)

theorem plenty_nonneg (token : ℕ) : 0 ≤ plenty token 0 := le_rfl

theorem step_call {Address : Type} [DecidableEq Address] {amm : Address} {env : Env amm}
    {w w' : World Address} {c : Call Address} (typed : c.Typed) (h : exec env w c = .ok w') :
    Step amm w (.call env c) w' := ⟨typed, h⟩

theorem twoRanges_reachable (cond : SwapConfig → SwapState → Prop) {w : World ℕ}
    (h : twoRanges = .ok w) :
    Reachable (ConsistentInitial 0) (Guarded (SwapMeets cond) (Step 0)) w := by
  obtain ⟨w₀, h₀, h⟩ := bind_ok_iff.1 h
  obtain ⟨_, h₁, h₂⟩ := bind_ok_iff.1 h
  have init : ConsistentInitial 0 w₀ := by
    refine ⟨⟨8, 9, 0, 1, q64, 0, plenty, plenty_nonneg, by decide, by decide, by decide,
      by decide, h₀⟩, ?_⟩
    obtain rfl := pure_ok_iff.1 h₀
    rintro _ ⟨⟩
    decide
  exact ((Reachable.start init).next_guarded (step_call (by decide) h₁) trivial).next_guarded
    (step_call (by decide) h₂) trivial

/-- Selling 1000 of token 9 leaves the price in tick 0. -/
theorem twoRanges_price_in_tick :
    ∃ (w w' : World ℕ) (pool : Pool ℕ), twoRanges = .ok w ∧
      exec signed w (.swap 2 false 1000 5) = .ok w' ∧ w'.pool = some pool ∧
      ∃ ratio, getSqrtRatioAtTick (pool.currentTick + 1) = .ok ratio ∧
        pool.currentSqrtPrice ≤ ratio := by
  obtain ⟨w, hw, w', hw', kept⟩ : ∃ w, twoRanges = .ok w ∧
      ∃ w', exec signed w (.swap 2 false 1000 5) = .ok w' ∧
        ∀ pool ∈ w.pool, EveryIteration (TickKept (swapConfig pool w false))
          (swapConfig pool w false) 5 (swapStart pool w 1000) := by
    decide +kernel
  obtain ⟨pool, hp, -, upper, -⟩ := price_in_tick_of_kept
    ((twoRanges_reachable TickKept hw).next_guarded (step_call (by decide) hw') kept)
  exact ⟨w, w', pool, hw, hw', hp, upper⟩

/-- Selling 1500000 of token 8 moves the price below the initialized tick -100, and the current tick
stays 0. -/
theorem price_leaves_tick :
    ∃ w : World ℕ, Reachable (ConsistentInitial 0) (Step 0) w ∧ ∃ pool, w.pool = some pool ∧
      (¬ ∃ ratio, getSqrtRatioAtTick pool.currentTick = .ok ratio ∧
        ratio ≤ pool.currentSqrtPrice) ∧
      0 < (w.ticks.getD (-100) emptyTick).liquidityGross ∧ -100 ≤ pool.currentTick ∧
      ∃ ratio, getSqrtRatioAtTick (-100) = .ok ratio ∧ pool.currentSqrtPrice < ratio := by
  obtain ⟨w, hw, w', hw', passed⟩ : ∃ w, twoRanges = .ok w ∧
      ∃ w', exec signed w (.swap 2 true 1500000 5) = .ok w' ∧ ∃ pool ∈ w'.pool,
        (¬ ∃ ratio, getSqrtRatioAtTick pool.currentTick = .ok ratio ∧
          ratio ≤ pool.currentSqrtPrice) ∧
        0 < (w'.ticks.getD (-100) emptyTick).liquidityGross ∧ -100 ≤ pool.currentTick ∧
        ∃ ratio, getSqrtRatioAtTick (-100) = .ok ratio ∧ pool.currentSqrtPrice < ratio := by
    decide +kernel
  have before := (twoRanges_reachable (fun _ _ => True) hw).of_guarded
  exact ⟨w', before.next (step_call (by decide) hw'), passed⟩

end ConcentratedAmm
