import Perigee.ConcentratedAmm.Bookkeeping
import Perigee.Soroban.Wrapping

/-!
# Minting and burning

`mint` decides by the price which tokens a range needs, `burn` decides it by the current tick.
While tick and price are on the same side of both ends of the range the two decisions agree, and a
fresh position that is burned at once pays no more than it was charged.  Once the tick is stale a
range can be charged in one token and paid in both.
-/

namespace ConcentratedAmm

open Soroban

variable {tick lo hi : ℤ} {price liquidity amountA amountB : ℕ} {x y fg0 fg1 : ℕ}
  {delta currentTick : ℤ} {ticks ticks' : Ticks} {isUpper flipped : Bool}

/-- While tick and price are on the same sides of the range, a burn pays by where the price is. -/
theorem burnAmounts_by_price (lower : SameSide tick price lo) (upper : SameSide tick price hi)
    (h : burnAmounts tick lo hi price (sqrtRatio lo) (sqrtRatio hi) liquidity =
      .ok (amountA, amountB)) :
    (price ≤ sqrtRatio lo ∧
      getAmount0Delta (sqrtRatio lo) (sqrtRatio hi) liquidity = .ok amountA ∧ amountB = 0) ∨
    (sqrtRatio hi ≤ price ∧ amountA = 0 ∧
      getAmount1Delta (sqrtRatio lo) (sqrtRatio hi) liquidity = .ok amountB) ∨
    (sqrtRatio lo < price ∧ price < sqrtRatio hi ∧
      getAmount0Delta price (sqrtRatio hi) liquidity = .ok amountA ∧
      getAmount1Delta (sqrtRatio lo) price liquidity = .ok amountB) := by
  unfold burnAmounts at h
  split_ifs at h with below above <;>
    simp only [ok_iff, ofMath_ok_iff] at h
  · obtain ⟨_, ha, rfl, rfl⟩ := h
    exact .inl ⟨lower.2 below, ha, rfl⟩
  · obtain ⟨_, hb, rfl, rfl⟩ := h
    exact .inr (.inl ⟨upper.1 above, rfl, hb⟩)
  obtain ⟨_, ha, _, hb, rfl, rfl⟩ := h
  rcases (lower.1 (not_lt.1 below)).eq_or_lt with atLower | inLower
  · rw [← atLower] at ha hb
    obtain ⟨-, rfl⟩ := (getAmount1Delta_ok_iff le_rfl).1 hb
    exact .inl ⟨atLower.ge, ha, by simp⟩
  rcases (upper.2 (not_le.1 above)).eq_or_lt with atUpper | inUpper
  · rw [atUpper] at ha hb
    obtain ⟨positive, bound, -⟩ := getAmount0Delta_ok ha le_rfl
    rw [Nat.sub_self] at bound
    have zero := Nat.eq_zero_of_le_zero bound
    rw [Nat.mul_eq_zero] at zero
    exact .inr (.inl ⟨atUpper.ge, zero.resolve_right (Nat.mul_pos positive positive).ne', hb⟩)
  · exact .inr (.inr ⟨inLower, inUpper, ha, hb⟩)

theorem burnAmounts_le_mintAmounts {paidA paidB : ℕ} (lower : SameSide tick price lo)
    (upper : SameSide tick price hi) (lt : lo < hi) (hl : ValidTick lo) (hh : ValidTick hi)
    (minted : mintAmounts price (sqrtRatio lo) (sqrtRatio hi) x y =
      .ok (liquidity, amountA, amountB))
    (burned : burnAmounts tick lo hi price (sqrtRatio lo) (sqrtRatio hi) liquidity =
      .ok (paidA, paidB)) : paidA ≤ amountA ∧ paidB ≤ amountB := by
  have gap := sqrtRatio_strictMono hl hh lt
  have positive := Nat.mul_pos (sqrtRatio_pos hl) (sqrtRatio_pos hh)
  rcases mintAmounts_ok minted with
    ⟨_, rfl, rfl, bound⟩ | ⟨_, _, rfl, rfl, bound⟩ | ⟨_, _, ha, hb⟩ <;>
    rcases burnAmounts_by_price lower upper burned with
      ⟨_, ha', rfl⟩ | ⟨_, rfl, hb'⟩ | ⟨_, _, ha', hb'⟩
  · refine ⟨le_of_mul_le_mul_right ?_ positive, le_rfl⟩
    calc _ ≤ liquidity * q64 * (sqrtRatio hi - sqrtRatio lo) := (getAmount0Delta_ok ha' gap.le).2.1
      _ = liquidity * (sqrtRatio hi - sqrtRatio lo) * q64 := by ring
      _ ≤ _ := bound
  · omega
  · omega
  · omega
  · obtain ⟨-, rfl⟩ := (getAmount1Delta_ok_iff gap.le).1 hb'
    exact ⟨le_rfl, Nat.div_le_of_le_mul (by rwa [mul_comm q64])⟩
  · omega
  · omega
  · omega
  · obtain rfl := Except.ok.inj (ha.symm.trans ha')
    obtain rfl := Except.ok.inj (hb.symm.trans hb')
    exact ⟨le_rfl, le_rfl⟩

/-! ## Success of the burn -/

theorem getAmount0Delta_succeeds {p q : ℕ} (positive : 0 < p) (le : p ≤ q) (half : q ≤ 2 ^ 127)
    (fits : liquidity * q64 < 2 ^ 128 * q) (small : x < 2 ^ 128)
    (bound : liquidity * (q - p) * q64 ≤ x * (p * q)) :
    ∃ amount, getAmount0Delta p q liquidity = .ok amount := by
  have qPos : 0 < q := positive.trans_le le
  unfold getAmount0Delta
  rw [ite_lt_left le, ite_lt_right le]
  apply bind_succeeds ((mulDivU128_ok_iff half).2
    ⟨qPos, (Nat.div_lt_iff_lt_mul qPos).2 fits, rfl⟩)
  apply bind_succeeds (checkedSub_ok_iff.2 ⟨le, rfl⟩)
  refine ⟨_, (mulDivU128_ok_iff (le.trans half)).2 ⟨positive, ?_, rfl⟩⟩
  refine lt_of_le_of_lt (Nat.div_le_of_le_mul ?_) small
  refine le_of_mul_le_mul_right ?_ qPos
  calc liquidity * q64 / q * (q - p) * q = liquidity * q64 / q * q * (q - p) := by ring
    _ ≤ liquidity * q64 * (q - p) := Nat.mul_le_mul_right _ (Nat.div_mul_le_self _ _)
    _ = liquidity * (q - p) * q64 := by ring
    _ ≤ x * (p * q) := bound
    _ = p * x * q := by ring

theorem burnAmounts_succeeds (lower : SameSide tick price lo) (upper : SameSide tick price hi)
    (lt : lo < hi) (hl : ValidTick lo) (hh : ValidTick hi) (hx : x < 2 ^ 128) (hy : y < 2 ^ 128)
    (fits : liquidity * q64 < 2 ^ 128 * sqrtRatio hi)
    (minted : mintAmounts price (sqrtRatio lo) (sqrtRatio hi) x y =
      .ok (liquidity, amountA, amountB)) :
    ∃ paid, burnAmounts tick lo hi price (sqrtRatio lo) (sqrtRatio hi) liquidity = .ok paid := by
  have gap := sqrtRatio_strictMono hl hh lt
  have positive := sqrtRatio_pos hl
  have half : sqrtRatio hi ≤ 2 ^ 127 := (sqrtRatio_lt hh).le.trans (by norm_num)
  unfold SameSide at lower upper
  unfold burnAmounts
  rcases mintAmounts_ok minted with
    ⟨below, -, -, bound⟩ | ⟨above, above', -, -, bound⟩ | ⟨_, _, ha, hb⟩
  · obtain ⟨a, ha⟩ := getAmount0Delta_succeeds positive gap.le half fits hx bound
    by_cases outside : tick < lo
    · rw [if_pos outside]
      exact bind_succeeds (ofMath_ok_iff.2 ha) ⟨_, rfl⟩
    · have atLower : price = sqrtRatio lo := le_antisymm below (lower.1 (not_lt.1 outside))
      have inside : ¬ hi ≤ tick := fun beyond => by
        omega
      have none : getAmount1Delta (sqrtRatio lo) (sqrtRatio lo) liquidity = .ok 0 :=
        (getAmount1Delta_ok_iff le_rfl).2 (by simp)
      rw [if_neg outside, if_neg inside, atLower]
      exact bind_succeeds (ofMath_ok_iff.2 ha) (bind_succeeds (ofMath_ok_iff.2 none) ⟨_, rfl⟩)
  · have hb : getAmount1Delta (sqrtRatio lo) (sqrtRatio hi) liquidity = .ok _ :=
      (getAmount1Delta_ok_iff gap.le).2
        ⟨lt_of_le_of_lt (Nat.div_le_of_le_mul (by rwa [mul_comm q64])) hy, rfl⟩
    have notBelow : ¬ tick < lo := fun below => by
      omega
    rw [if_neg notBelow]
    by_cases outside : hi ≤ tick
    · rw [if_pos outside]
      exact bind_succeeds (ofMath_ok_iff.2 hb) ⟨_, rfl⟩
    · have atUpper : price = sqrtRatio hi := le_antisymm (upper.2 (not_le.1 outside)) above'
      obtain ⟨a, ha⟩ := getAmount0Delta_succeeds (x := 0) (sqrtRatio_pos hh) le_rfl half fits
        (by norm_num) (by simp)
      rw [if_neg outside, atUpper]
      exact bind_succeeds (ofMath_ok_iff.2 ha) (bind_succeeds (ofMath_ok_iff.2 hb) ⟨_, rfl⟩)
  · have notBelow : ¬ tick < lo := fun below => by
      have := lower.2 below
      omega
    have notAbove : ¬ hi ≤ tick := fun above => by
      omega
    rw [if_neg notBelow, if_neg notAbove]
    exact bind_succeeds (ofMath_ok_iff.2 ha) (bind_succeeds (ofMath_ok_iff.2 hb) ⟨_, rfl⟩)

theorem updateTick_succeeds (ticks : Ticks) (tick currentTick : ℤ) (fg0 fg1 : ℕ) (isUpper : Bool)
    (range : IsI128 (-delta))
    (net : IsI128 ((ticks.getD tick emptyTick).liquidityNet + if isUpper then -delta else delta)) :
    ∃ r, updateTick ticks tick currentTick delta fg0 fg1 isUpper = .ok r := by
  have change : netDelta delta isUpper = .ok (if isUpper then -delta else delta) := by
    unfold netDelta
    split_ifs
    · exact i128_ok_iff.2 ⟨range, rfl⟩
    · rfl
  have gross : ∃ r, saturatingAddSigned (ticks.getD tick emptyTick).liquidityGross delta =
      .ok r := by
    unfold saturatingAddSigned
    split_ifs
    · exact bind_succeeds (i128_ok_iff.2 ⟨range, rfl⟩) ⟨_, rfl⟩
    · exact ⟨_, rfl⟩
  obtain ⟨_, gross⟩ := gross
  apply bind_succeeds change
  refine bind_succeeds (i128_ok_iff.2 ⟨?_, rfl⟩) (bind_succeeds gross ⟨_, rfl⟩)
  split_ifs at net ⊢ <;> exact net

theorem updateTick_add (positive : 0 < liquidity)
    (h : updateTick ticks tick currentTick liquidity fg0 fg1 isUpper = .ok (flipped, ticks')) :
    ∀ t, (ticks'.getD t emptyTick).liquidityNet = (ticks.getD t emptyTick).liquidityNet +
      if t = tick then (if isUpper then -(liquidity : ℤ) else liquidity) else 0 := by
  obtain ⟨gross, hs, -, -, record⟩ := updateTick_ok h
  have nonzero : gross ≠ 0 := by
    unfold saturatingAddSigned at hs
    obtain rfl := pure_ok_iff.1 hs
    unfold saturatingAdd
    omega
  intro t
  rw [record]
  by_cases same : t = tick
  · rw [if_pos same, if_pos same, updatedTick_net, if_neg nonzero, same]
  · rw [if_neg same, if_neg same, add_zero]

theorem updateTick_frame
    (h : updateTick ticks tick currentTick delta fg0 fg1 isUpper = .ok (flipped, ticks')) {t : ℤ}
    (other : t ≠ tick) : ticks'.getD t emptyTick = ticks.getD t emptyTick := by
  obtain ⟨_, -, -, -, record⟩ := updateTick_ok h
  rw [record, if_neg other]

theorem flipIf_succeeds (bitmap : TickBitmap) {tickSpacing : ℤ} (flipped : Bool)
    (nonzero : tickSpacing ≠ 0) (valid : ValidTick tick) :
    ∃ r, flipIf flipped bitmap tick tickSpacing = .ok r := by
  obtain ⟨_, _⟩ := validTick_iff.1 valid
  have size := Int.natAbs_tdiv_le_natAbs tick tickSpacing
  unfold flipIf
  split_ifs
  · have range : IsI32 (tick.tdiv tickSpacing) := ⟨by omega, by omega⟩
    exact bind_succeeds (divI32_ok_iff.2 ⟨nonzero, range, rfl⟩) ⟨_, rfl⟩
  · exact ⟨_, rfl⟩

/-! ## Balances and net liquidity stay in range -/

section Contract

variable {Address : Type} {amm : Address} {w w' : World Address} {pool : Pool Address}
  {owner : Address} {bitmap bitmap' : TickBitmap}

/-- The contract has no debts, and the net liquidity of every tick is a value of its type. -/
structure Sound (amm : Address) (w : World Address) : Prop where
  balances : ∀ token, 0 ≤ w.tokens token amm
  nets : ∀ t, IsI128 (w.ticks.getD t emptyTick).liquidityNet

def NetsInRange (ticks : Ticks) : Prop := ∀ t, IsI128 (ticks.getD t emptyTick).liquidityNet

theorem updateTick_nets (nets : NetsInRange ticks)
    (h : updateTick ticks tick currentTick delta fg0 fg1 isUpper = .ok (flipped, ticks')) :
    NetsInRange ticks' := by
  obtain ⟨_, -, range, -, record⟩ := updateTick_ok h
  intro t
  rw [record]
  by_cases same : t = tick
  · rw [if_pos same, updatedTick_net]
    split_ifs at range ⊢
    · decide
    · decide
    · exact range
    · exact range
  · rw [if_neg same]
    exact nets t

theorem updateRange_nets (nets : NetsInRange ticks)
    (h : updateRange pool ticks bitmap lo hi delta = .ok (ticks', bitmap')) :
    NetsInRange ticks' := by
  unfold updateRange at h
  simp only [ok_iff] at h
  obtain ⟨⟨_, _⟩, first, ⟨_, _⟩, second, _, -, _, -, rfl, -⟩ := h
  exact updateTick_nets (updateTick_nets nets first) second

theorem cross_nets {next : ℤ} {info : TickInfo} (nets : NetsInRange ticks)
    (record : ticks.lookup next = some info) :
    NetsInRange (ticks.set next (crossedTick info fg0 fg1)) := by
  intro t
  rw [Store.getD_set]
  split_ifs
  · unfold crossedTick
    rw [← getD_of_lookup record]
    exact nets next
  · exact nets t

theorem move_nets {cfg : SwapConfig} {s s' : SwapState} (nets : NetsInRange s.ticks)
    (move : Move cfg s s') : NetsInRange s'.ticks := by
  cases move with
  | jump next _ _ _ _ crossed _ result =>
    subst result
    unfold crossIfPresent at crossed
    cases record : s.ticks.lookup next with
    | none =>
      rw [record] at crossed
      obtain ⟨rfl, -⟩ := Prod.mk.inj (pure_ok_iff.1 crossed)
      exact nets
    | some =>
      rw [record] at crossed
      obtain ⟨_, -, crossed⟩ := bind_ok_iff.1 crossed
      obtain ⟨rfl, -⟩ := Prod.mk.inj (pure_ok_iff.1 crossed)
      exact cross_nets nets record
  | cross _ _ _ _ _ _ _ _ _ _ _ _ _ _ _ record _ _ result =>
    subst result
    exact cross_nets nets record
  | within _ _ _ _ _ _ _ _ _ _ _ _ mid settled result =>
    subst result
    rw [settled.ticks]
    exact nets

theorem sound_initial (init : Initial amm w) : Sound amm w := by
  obtain ⟨_, _, _, _, _, _, _, nonneg, -, -, -, -, h⟩ := init
  obtain rfl := pure_ok_iff.1 h
  have zero : IsI128 0 := by decide
  exact ⟨nonneg, fun _ => zero⟩

theorem updateRange_back (range : IsRange pool.tickSpacing lo hi) (nets : NetsInRange ticks)
    (positive : 0 < liquidity) (small : liquidity < 2 ^ 127) (active : ℕ)
    (h : updateRange pool ticks bitmap lo hi liquidity = .ok (ticks', bitmap')) :
    ∃ r, updateRange { pool with liquidity := active } ticks' bitmap' lo hi (-liquidity) =
      .ok r := by
  unfold updateRange at h
  simp only [ok_iff] at h
  obtain ⟨⟨_, _⟩, first, ⟨_, ticks₂⟩, second, _, -, _, -, rfl, rfl⟩ := h
  have ne := range.lt.ne
  have opposite : IsI128 (-(-(liquidity : ℤ))) := ⟨by omega, by omega⟩
  have netLower : (ticks₂.getD lo emptyTick).liquidityNet =
      (ticks.getD lo emptyTick).liquidityNet + liquidity := by
    rw [updateTick_frame second ne, updateTick_add positive first, if_pos rfl,
      if_neg Bool.false_ne_true]
  have netUpper : (ticks₂.getD hi emptyTick).liquidityNet =
      (ticks.getD hi emptyTick).liquidityNet - liquidity := by
    rw [updateTick_add positive second, if_pos rfl, updateTick_frame first ne.symm]
    rfl
  obtain ⟨⟨flippedLower, ticks₃⟩, third⟩ := updateTick_succeeds ticks₂ lo
    pool.currentTick pool.feeGrowthGlobal0 pool.feeGrowthGlobal1 false opposite (by
      rw [netLower, if_neg Bool.false_ne_true, add_neg_cancel_right]
      exact nets lo)
  obtain ⟨⟨flippedUpper, _⟩, fourth⟩ := updateTick_succeeds ticks₃ hi
    pool.currentTick pool.feeGrowthGlobal0 pool.feeGrowthGlobal1 true opposite (by
      rw [updateTick_frame third ne.symm, netUpper, if_pos rfl, neg_neg, sub_add_cancel]
      exact nets hi)
  obtain ⟨bitmap₃, flipLower⟩ :=
    flipIf_succeeds _ flippedLower range.spacing range.validLower
  obtain ⟨_, flipUpper⟩ :=
    flipIf_succeeds bitmap₃ flippedUpper range.spacing range.validUpper
  exact bind_succeeds third (bind_succeeds fourth (bind_succeeds flipLower
    (bind_succeeds flipUpper ⟨_, rfl⟩)))

variable [DecidableEq Address]

theorem exec_pool {env : Env amm} {c : Call Address} (h : exec env w c = .ok w') :
    ∃ pool, w.pool = some pool := by
  cases hp : w.pool with
  | some pool => exact ⟨pool, rfl⟩
  | none =>
    cases c <;> simp [exec, mint, burn, collectFees, swap, map_ok_iff, ok_iff, hp] at h

theorem Sound.step {action : Action amm} (sound : Sound amm w) (step : Step amm w action w') :
    Sound amm w' := by
  cases action with
  | external =>
    obtain ⟨grow, rfl⟩ := step
    exact ⟨fun token => (sound.balances token).trans (grow token), sound.nets⟩
  | call _ c =>
    obtain ⟨typed, step⟩ := step
    obtain ⟨pool, hp⟩ := exec_pool step
    cases c with
    | mint =>
      obtain ⟨⟨_, a, b⟩, h⟩ := map_snd_ok_iff.1 step
      obtain ⟨tokens, ticks, bitmap, pos, active, auth, -, amounts, -, paid, update, -, -, -,
        rfl⟩ := mint_ok hp h
      obtain ⟨ha, hb⟩ := mintAmounts_lt typed.2.2.1 typed.2.2.2 amounts
      have received := (payBoth_in (Env.ne_this auth) ha hb paid).2.2
      refine ⟨fun token => ?_, updateRange_nets sound.nets update⟩
      have before := sound.balances token
      change 0 ≤ tokens token amm
      rw [received]
      split_ifs <;> omega
    | burn =>
      obtain ⟨⟨a, b⟩, h⟩ := map_snd_ok_iff.1 step
      obtain ⟨before, pos, ticks, bitmap, active, tokens, auth, -, -, -, -, amounts, -, -, update,
        -, paid, rfl⟩ := burn_ok hp h
      obtain ⟨ha, hb⟩ := burnAmounts_lt amounts
      exact ⟨(payBoth_out (Env.ne_this auth) ha hb paid).2 sound.balances,
        updateRange_nets sound.nets update⟩
    | collectFees =>
      obtain ⟨⟨a, b⟩, h⟩ := map_snd_ok_iff.1 step
      obtain ⟨before, pos, tokens, auth, -, accrued, -, -, paid, rfl⟩ := collectFees_ok hp h
      obtain ⟨ha, hb⟩ := accrue_lt accrued
      exact ⟨(payBoth_out (Env.ne_this auth) ha hb paid).2 sound.balances, sound.nets⟩
    | swap trader _ amountSpecified =>
      obtain ⟨⟨a, b⟩, h⟩ := map_snd_ok_iff.1 step
      obtain ⟨s, _, tokens, auth, loop, -, -, paidIn, paidOut, rfl⟩ := swap_ok hp h
      have other := (Env.ne_this auth).symm
      have nets := swapLoop_keeps
        (P := fun s => NetsInRange s.ticks) (fun _ _ nets move => move_nets nets move)
        (s := swapStart pool w amountSpecified) sound.nets loop
      refine ⟨fun token => ?_, nets⟩
      obtain ⟨_, -, -⟩ := Tokens.transfer_ok_iff.1 paidIn
      obtain ⟨-, _, -⟩ := Tokens.transfer_ok_iff.1 paidOut
      have balance := sound.balances token
      have received := Tokens.transfer_apply paidIn token amm
      have spent := Tokens.transfer_apply paidOut token amm
      change 0 ≤ tokens token amm
      split_ifs at received spent <;> simp_all <;> omega

/-! ## The round trip -/

variable {env env' : Env amm} {x y : ℕ}

theorem fresh_accrue {pos : PositionInfo} {inside : ℕ × ℕ}
    (fresh : w.positions.lookup (owner, lo, hi) = none)
    (accrued : accrue (w.positions.getD (owner, lo, hi) ⟨0, inside.1, inside.2, 0, 0⟩) inside =
      .ok pos) : pos = ⟨0, inside.1, inside.2, 0, 0⟩ := by
  rw [Store.getD, fresh, Option.getD_none] at accrued
  obtain ⟨_, _, h0, h1, rfl, -⟩ := accrue_ok accrued
  have nothing : ∀ {i l f : ℕ}, unwrapOr (mulDivU128 0 (wrappingSub i l) q64) 0 = .ok f →
      f = 0 := by
    intro i l f h
    rcases unwrapOr_ok h with h | rfl
    · have bound := (mulDivU128_le h).2
      rw [zero_mul] at bound
      exact Nat.le_zero.1 bound
    · rfl
  rw [nothing h0, nothing h1]

theorem accrue_again (inside : ℕ × ℕ) :
    accrue ⟨liquidity, inside.1, inside.2, 0, 0⟩ inside =
      .ok ⟨liquidity, inside.1, inside.2, 0, 0⟩ := by
  have none : ∀ i, unwrapOr (mulDivU128 liquidity (wrappingSub i i) q64) 0 = .ok 0 := by
    intro i
    have product : mulDivU128 liquidity 0 q64 = .ok 0 :=
      (mulDivU128_ok_iff q64_le_half).2 ⟨q64_pos, by simp, by simp⟩
    rw [wrappingSub_self, product]
    rfl
  have fits : (u128 (0 + 0) : Outcome Error ℕ) = .ok 0 := u128_ok_iff.2 ⟨by norm_num, rfl⟩
  unfold accrue
  simp only [bind_ok_iff]
  exact ⟨0, none _, 0, fits, 0, none _, 0, fits, rfl⟩

/-- A fresh position can be burned at once, unless its liquidity or the first product of its amount
of token A overflows. -/
theorem burn_succeeds_after_mint (sound : Sound amm w)
    (hp : w.pool = some pool) (lower : SameSide pool.currentTick pool.currentSqrtPrice lo)
    (upper : SameSide pool.currentTick pool.currentSqrtPrice hi)
    (typed : (Call.mint owner lo hi x y).Typed)
    (minted : mint env owner lo hi x y w = .ok ((liquidity, amountA, amountB), w'))
    (fresh : w.positions.lookup (owner, lo, hi) = none) (auth' : env'.auth owner = true)
    (small : liquidity < 2 ^ 127) (fits : liquidity * q64 < 2 ^ 128 * sqrtRatio hi) :
    ∃ r, burn env' owner lo hi liquidity w' = .ok r := by
  obtain ⟨tokens, _, _, _, active, auth, range, amounts, nonzero, paid, update, accrued,
    _, hactive, rfl⟩ := mint_ok hp minted
  obtain ⟨hx, hy⟩ := typed.2.2
  obtain rfl := fresh_accrue fresh accrued
  obtain ⟨⟨paidA, paidB⟩, burned⟩ := burnAmounts_succeeds lower upper range.lt
    range.validLower range.validUpper hx hy fits amounts
  obtain ⟨_, _⟩ := burnAmounts_le_mintAmounts lower upper range.lt range.validLower
    range.validUpper amounts burned
  obtain ⟨chargedA, chargedB⟩ := mintAmounts_lt hx hy amounts
  obtain ⟨_, _, received⟩ := payBoth_in (Env.ne_this auth) chargedA chargedB paid
  rw [asI128_of_lt small] at update
  obtain ⟨⟨_, _⟩, back⟩ :=
    updateRange_back range sound.nets (Nat.pos_of_ne_zero nonzero) small active update
  have negated : IsI128 (-(liquidity : ℤ)) := ⟨by omega, by omega⟩
  have inactive : ∃ left, activeLiquidity pool.currentTick lo hi active
      (subU128 active liquidity) = .ok left := by
    have covered := activeLiquidity_mint hactive
    unfold activeLiquidity
    split_ifs with covers
    · rw [if_pos (show Covers pool.currentTick lo hi from covers)] at covered
      exact ⟨_, subU128_ok_iff.2 ⟨by omega, rfl⟩⟩
    · exact ⟨_, rfl⟩
  obtain ⟨left, hleft⟩ := inactive
  obtain ⟨_, repaid⟩ := payBoth_succeeds { pool with liquidity := active }
    (t := tokens) (a := paidA) (b := paidB) (by omega) (by omega) (by
      intro k
      have before := sound.balances k
      rw [received]
      split_ifs <;> omega)
  apply bind_succeeds (a := ()) (requireAuth_ok_iff.2 auth')
  apply bind_succeeds (okOr_ok_iff.2 (Store.lookup_set_self _ _ _))
  apply bind_succeeds (a := ()) (reject_ok_iff.2 (by simp))
  apply bind_succeeds (unwrap_ok_iff.2 rfl)
  apply bind_succeeds (ofMath_ok_iff.2 (getSqrtRatioAtTick_of_valid range.validLower))
  apply bind_succeeds (ofMath_ok_iff.2 (getSqrtRatioAtTick_of_valid range.validUpper))
  apply bind_succeeds burned
  rw [zero_add]
  apply bind_succeeds (accrue_again _)
  apply bind_succeeds (subU128_ok_iff.2 ⟨le_rfl, rfl⟩)
  rw [asI128_of_lt small]
  apply bind_succeeds (i128_ok_iff.2 ⟨negated, rfl⟩)
  apply bind_succeeds back
  apply bind_succeeds hleft
  exact bind_succeeds repaid ⟨_, rfl⟩

/-- If the price and the current tick are on the same side of both ends of the range, burning a
fresh position right after its mint pays at most what was charged, and it does pay unless the
liquidity or its first product overflows.  They are as long as the iterations of all swaps keep the
price in the current tick. -/
theorem burn_after_mint_le_charge (reach : Reachable (Initial amm) (Step amm) w)
    (hp : w.pool = some pool) (typed : (Call.mint owner lo hi x y).Typed)
    (minted : mint env owner lo hi x y w = .ok ((liquidity, amountA, amountB), w'))
    (fresh : w.positions.lookup (owner, lo, hi) = none) :
    (SameSide pool.currentTick pool.currentSqrtPrice lo →
      SameSide pool.currentTick pool.currentSqrtPrice hi →
      (∀ paidA paidB w'', burn env' owner lo hi liquidity w' = .ok ((paidA, paidB), w'') →
        paidA ≤ amountA ∧ paidB ≤ amountB) ∧
      (env'.auth owner = true → liquidity < 2 ^ 127 →
        (∀ ratio, getSqrtRatioAtTick hi = .ok ratio → liquidity * q64 < 2 ^ 128 * ratio) →
        ∃ r, burn env' owner lo hi liquidity w' = .ok r)) ∧
    (Reachable (ConsistentInitial amm) (Guarded (SwapMeets TickKept) (Step amm)) w →
      SameSide pool.currentTick pool.currentSqrtPrice lo ∧
        SameSide pool.currentTick pool.currentSqrtPrice hi) := by
  obtain ⟨_, _, _, _, _, -, range, amounts, -⟩ := mint_ok hp minted
  refine ⟨fun lower upper => ⟨?_, ?_⟩, fun kept => ?_⟩
  · intro paidA paidB w'' burned
    obtain ⟨_, _, _, _, _, -, -, -, -, -, -, -, -, -, rfl⟩ := mint_ok hp minted
    obtain ⟨_, -, -, -, -, -, -, -, -, -, -, amounts', -⟩ := burn_ok rfl burned
    exact burnAmounts_le_mintAmounts lower upper range.lt range.validLower range.validUpper amounts
      amounts'
  · intro auth' small fits
    have sound : Sound amm w := reach.invariant (fun _ init => sound_initial init)
      (fun _ _ _ sound step => sound.step step)
    exact burn_succeeds_after_mint sound hp lower upper typed minted fresh auth' small
      (fits _ (getSqrtRatioAtTick_of_valid range.validUpper))
  · obtain ⟨_, hp', agree⟩ := agrees_of_kept kept
    obtain rfl := Option.mem_unique hp hp'
    exact ⟨agree.sides range.validLower, agree.sides range.validUpper⟩

end Contract

/-! ## A stale tick -/

theorem twoRanges_reachable_swap {w₀ w : World ℕ} (h₀ : twoRanges = .ok w₀)
    (h : exec signed w₀ (.swap 2 true 600000 5) = .ok w) :
    Reachable (Initial 0) (Step 0) w :=
  ((twoRanges_reachable (fun _ _ => True) h₀).of_guarded.of_init fun _ => And.left).next
    (step_call (by decide) h)

/-- After a sale that moved the price below tick -10 and left the tick at 0, a third account mints
and burns a range above both. -/
theorem twoRanges_round_trip :
    ∃ (w₀ w w' : World ℕ) (minted : ℕ × ℕ × ℕ), twoRanges = .ok w₀ ∧
      exec signed w₀ (.swap 2 true 600000 5) = .ok w ∧
      mint signed 2 100 110 1000 1000 w = .ok (minted, w') ∧
      ∃ r, burn signed 2 100 110 minted.1 w' = .ok r ∧ r.1.1 ≤ minted.2.1 ∧
        r.1.2 ≤ minted.2.2 := by
  obtain ⟨w₀, hw₀, w, hw, ⟨⟨liquidity, a, b⟩, w'⟩, hm, pool, hp, lower, upper, fresh, small,
    fits⟩ :
      ∃ w₀, twoRanges = .ok w₀ ∧ ∃ w, exec signed w₀ (.swap 2 true 600000 5) = .ok w ∧
        ∃ r, mint signed 2 100 110 1000 1000 w = .ok r ∧ ∃ pool ∈ w.pool,
          SameSide pool.currentTick pool.currentSqrtPrice 100 ∧
          SameSide pool.currentTick pool.currentSqrtPrice 110 ∧
          w.positions.lookup (2, 100, 110) = none ∧ r.1.1 < 2 ^ 127 ∧
          ∀ ratio, getSqrtRatioAtTick 110 = .ok ratio → r.1.1 * q64 < 2 ^ 128 * ratio := by
    decide +kernel
  obtain ⟨bound, pays⟩ : (∀ paidA paidB w'',
      burn signed 2 100 110 liquidity w' = .ok ((paidA, paidB), w'') →
        paidA ≤ a ∧ paidB ≤ b) ∧ _ :=
    (burn_after_mint_le_charge (twoRanges_reachable_swap hw₀ hw) hp (by decide) hm fresh).1 lower
      upper
  obtain ⟨⟨⟨paidA, paidB⟩, w''⟩, burned⟩ := pays (by decide) small fits
  exact ⟨w₀, w, w', (liquidity, a, b), hw₀, hw, hm, _, burned, bound paidA paidB w'' burned⟩

/-- With the tick still 0 after a sale that moved the price below tick -10, a mint on the range from
-10 to 10 is charged 1000 of token 8 and nothing of token 9, and the burn pays both. -/
theorem burn_after_mint_pays_more :
    ∃ (w w' : World ℕ) (minted : ℕ × ℕ × ℕ) (r : (ℕ × ℕ) × World ℕ),
      Reachable (ConsistentInitial 0) (Step 0) w ∧
      w.positions.lookup (2, -10, 10) = none ∧
      mint signed 2 (-10) 10 1000 0 w = .ok (minted, w') ∧
      burn signed 2 (-10) 10 minted.1 w' = .ok r ∧
      minted.2.1 < r.1.1 ∧ minted.2.2 < r.1.2 := by
  obtain ⟨w₀, hw₀, w, hw, ⟨minted, w'⟩, hm, r, hr, fresh, more⟩ :
      ∃ w₀, twoRanges = .ok w₀ ∧ ∃ w, exec signed w₀ (.swap 2 true 600000 5) = .ok w ∧
        ∃ m, mint signed 2 (-10) 10 1000 0 w = .ok m ∧
        ∃ r, burn signed 2 (-10) 10 m.1.1 m.2 = .ok r ∧
          w.positions.lookup (2, -10, 10) = none ∧ m.1.2.1 < r.1.1 ∧ m.1.2.2 < r.1.2 := by
    decide +kernel
  have before := (twoRanges_reachable (fun _ _ => True) hw₀).of_guarded
  exact ⟨w, w', minted, r, before.next (step_call (by decide) hw), fresh, hm, hr,
    more⟩

end ConcentratedAmm
