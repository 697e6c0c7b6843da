import Perigee.ConcentratedAmm.Bookkeeping
import Perigee.Soroban.Wrapping

/-!
# Conservation of fees

A swap step charges a fee and spreads it over the active liquidity, as growth per unit of liquidity
modulo `2 ^ 128`.  Scaled by `q64`, what the positions are owed (`feeClaims`) grows in a swap step
by at most the fee charged; crossing a tick and changing a range move no claims.
-/

namespace ConcentratedAmm

open Soroban

/-! ## Growth of one token -/

/-- The growth inside a range of one token, which has grown by `global` and by `outside` on the
other side of each tick. -/
def insideGrowth (global : ℕ) (outside : ℤ → ℕ) (tick lo hi : ℤ) : ℕ :=
  wrappingSub (wrappingSub global (growthBeyond global (outside lo) (decide (lo ≤ tick))))
    (growthBeyond global (outside hi) (decide (tick < hi)))

section Growth

variable {global growth : ℕ} {outside : ℤ → ℕ} {tick tick' next lo hi : ℤ} {here : Bool}

theorem insideGrowth_lt : insideGrowth global outside tick lo hi < 2 ^ 128 := wrappingSub_lt _ _

theorem growthBeyond_lt {t : ℤ} (ho : outside t < 2 ^ 128) :
    growthBeyond global (outside t) here < 2 ^ 128 := by
  unfold growthBeyond
  split_ifs
  · exact ho
  · exact wrappingSub_lt _ _

theorem cast_growthBeyond {t : ℤ} (ho : outside t < 2 ^ 128) :
    (growthBeyond global (outside t) here : ZMod (2 ^ 128)) =
      if here then (outside t : ZMod (2 ^ 128)) else global - outside t := by
  unfold growthBeyond
  split_ifs
  · rfl
  · exact cast_wrappingSub ho

theorem cast_insideGrowth (ho : ∀ t, outside t < 2 ^ 128) :
    (insideGrowth global outside tick lo hi : ZMod (2 ^ 128)) =
      global - (if lo ≤ tick then (outside lo : ZMod (2 ^ 128)) else global - outside lo) -
        if tick < hi then (outside hi : ZMod (2 ^ 128)) else global - outside hi := by
  unfold insideGrowth
  rw [cast_wrappingSub (growthBeyond_lt (ho hi)), cast_wrappingSub (growthBeyond_lt (ho lo)),
    cast_growthBeyond (ho hi), cast_growthBeyond (ho lo)]
  simp only [decide_eq_true_eq]

theorem insideGrowth_grow (ho : ∀ t, outside t < 2 ^ 128) (lt : lo < hi) :
    insideGrowth (wrappingAdd global growth) outside tick lo hi =
      if Covers tick lo hi then wrappingAdd (insideGrowth global outside tick lo hi) growth
      else insideGrowth global outside tick lo hi := by
  have range : (if Covers tick lo hi then
        wrappingAdd (insideGrowth global outside tick lo hi) growth
      else insideGrowth global outside tick lo hi) < 2 ^ 128 := by
    split_ifs
    · exact wrappingAdd_lt _ _
    · exact insideGrowth_lt
  refine eq_of_cast_eq insideGrowth_lt range ?_
  rw [apply_ite (Nat.cast : ℕ → ZMod (2 ^ 128)), cast_wrappingAdd, cast_insideGrowth ho,
    cast_insideGrowth ho, cast_wrappingAdd]
  have order : lo ≤ tick ∨ tick < hi := by omega
  by_cases fromLower : lo ≤ tick <;> by_cases toUpper : tick < hi <;>
    simp only [Covers, fromLower, toUpper, and_true, and_false, or_self, if_true,
      if_false] at order ⊢ <;> ring

/-- The tick `e` changes sides between `tick` and `tick'` exactly if it is the tick crossed. -/
def CrossesOnly (next tick tick' e : ℤ) : Prop :=
  e ≤ tick' ↔ if e = next then ¬ e ≤ tick else e ≤ tick

theorem insideGrowth_cross (ho : ∀ t, outside t < 2 ^ 128)
    (lower : CrossesOnly next tick tick' lo) (upper : CrossesOnly next tick tick' hi) :
    insideGrowth global (fun t => if t = next then wrappingSub global (outside t) else outside t)
      tick' lo hi = insideGrowth global outside tick lo hi := by
  have after : ∀ t, (if t = next then wrappingSub global (outside t) else outside t) < 2 ^ 128 := by
    intro t
    split_ifs
    · exact wrappingSub_lt _ _
    · exact ho t
  refine eq_of_cast_eq insideGrowth_lt insideGrowth_lt ?_
  rw [cast_insideGrowth after, cast_insideGrowth ho]
  simp only [apply_ite (Nat.cast : ℕ → ZMod (2 ^ 128)), cast_wrappingSub (ho _)]
  unfold CrossesOnly at lower upper
  simp only [← not_le (a := hi), lower, upper]
  split_ifs <;> simp_all

end Growth

/-! ## The two tokens

`token` selects token A (`true`) or token B: the token that a swap with that `zeroForOne` is paid
in. -/

def outsideOf (token : Bool) (info : TickInfo) : ℕ :=
  if token then info.feeGrowthOutside0 else info.feeGrowthOutside1

def lastOf (token : Bool) (pos : PositionInfo) : ℕ :=
  if token then pos.feeGrowthInside0Last else pos.feeGrowthInside1Last

def owedOf (token : Bool) (pos : PositionInfo) : ℕ :=
  if token then pos.tokensOwed0 else pos.tokensOwed1

def grownOf (token : Bool) (s : SwapState) : ℕ := if token then s.fg0 else s.fg1

def globalOf {Address : Type} (token : Bool) (pool : Pool Address) : ℕ :=
  if token then pool.feeGrowthGlobal0 else pool.feeGrowthGlobal1

def outsideAt (token : Bool) (ticks : Ticks) (t : ℤ) : ℕ :=
  outsideOf token (ticks.getD t emptyTick)

abbrev growthInside {Address : Type} (token : Bool) (pool : Pool Address) (ticks : Ticks) :
    ℤ → ℤ → ℕ :=
  insideGrowth (globalOf token pool) (outsideAt token ticks) pool.currentTick

section Claims

variable {Address : Type} [DecidableEq Address] {token : Bool} {positions : Positions Address}
  {inside inside' : ℤ → ℤ → ℕ} {key : Address × ℤ × ℤ} {pos : PositionInfo}

/-- What a position is owed, with the growth since its last update, in units of `1 / q64`. -/
def feeClaim (token : Bool) (inside : ℤ → ℤ → ℕ) (key : Address × ℤ × ℤ) (pos : PositionInfo) : ℕ :=
  owedOf token pos * q64 + pos.liquidity * wrappingSub (inside key.2.1 key.2.2) (lastOf token pos)

def feeClaims (token : Bool) (inside : ℤ → ℤ → ℕ) (positions : Positions Address) : ℕ :=
  Store.sumBy (feeClaim token inside) positions

omit [DecidableEq Address] in
theorem feeClaim_congr
    (same : pos.liquidity ≠ 0 → inside' key.2.1 key.2.2 = inside key.2.1 key.2.2) :
    feeClaim token inside' key pos = feeClaim token inside key pos := by
  unfold feeClaim
  by_cases empty : pos.liquidity = 0
  · rw [empty, zero_mul, zero_mul]
  · rw [same empty]



omit [DecidableEq Address] in
/-- An update of a position turns growth into tokens owed, rounded down. -/
theorem accrue_claim (token : Bool) {before : PositionInfo} {pool : Pool Address} {ticks : Ticks}
    {lo hi : ℤ} (h : accrue before (feeGrowthInside pool ticks lo hi) = .ok pos) (owner : Address) :
    lastOf token pos = growthInside token pool ticks lo hi ∧
    owedOf token pos * q64 ≤
      feeClaim token (growthInside token pool ticks) (owner, lo, hi) before := by
  obtain ⟨_, _, h0, h1, rfl, -⟩ := accrue_ok h
  have round : ∀ {growth fee : ℕ}, unwrapOr (mulDivU128 before.liquidity growth q64) 0 = .ok fee →
      fee * q64 ≤ before.liquidity * growth := by
    intro growth fee h
    rcases unwrapOr_ok h with h | rfl
    · exact Nat.mul_le_of_le_div _ _ _ (mulDivU128_le h).2
    · exact Nat.zero_le _
  cases token <;> simp only [lastOf, owedOf, if_true, if_false, Bool.false_eq_true] <;>
    refine ⟨rfl, ?_⟩ <;> rw [add_mul]
  · exact Nat.add_le_add_left (round h1) _
  · exact Nat.add_le_add_left (round h0) _

omit [DecidableEq Address] in
theorem feeClaim_updated (updated : lastOf token pos = inside key.2.1 key.2.2) :
    feeClaim token inside key pos = owedOf token pos * q64 := by
  unfold feeClaim
  rw [updated, wrappingSub_self, mul_zero, add_zero]

/-! ## The swap loop -/

/-- The claims are covered: with what was collected they are at most what was charged. -/
structure FeeBooks (token : Bool) (positions : Positions Address) (ticks : Ticks) (global : ℕ)
    (tick : ℤ) (collected charged : ℕ) : Prop where
  global_lt : global < 2 ^ 128
  outside_lt : ∀ t, outsideAt token ticks t < 2 ^ 128
  last_lt : ∀ key pos, positions.lookup key = some pos → lastOf token pos < 2 ^ 128
  covered : collected * q64 +
    feeClaims token (insideGrowth global (outsideAt token ticks) tick) positions ≤ charged * q64

variable {ticks : Ticks} {global growth fee liquidity collected charged : ℕ}
  {tick tick' next tickSpacing : ℤ}

theorem FeeBooks.settle (books : FeeBooks token positions ticks global tick collected charged)
    (ordered : ∀ key pos, positions.lookup key = some pos → key.2.1 < key.2.2)
    (active : liquidity = liquidityWhere (Covers tick) positions)
    (spread : mulDivU128 fee q64 liquidity = .ok growth) :
    FeeBooks token positions ticks (wrappingAdd global growth) tick collected (charged + fee) := by
  refine ⟨wrappingAdd_lt _ _, books.outside_lt, books.last_lt, ?_⟩
  have rounded : growth * liquidity ≤ fee * q64 :=
    Nat.mul_le_of_le_div _ _ _ (mulDivU128_le spread).2
  have gained : feeClaims token
      (insideGrowth (wrappingAdd global growth) (outsideAt token ticks) tick) positions ≤
      feeClaims token (insideGrowth global (outsideAt token ticks) tick) positions +
        growth * liquidity := by
    rw [active, liquidityWhere, feeClaims, feeClaims, Store.mul_sumBy, ← Store.sumBy_add]
    refine Store.sumBy_mono fun key pos h => ?_
    have last := books.last_lt key pos h
    unfold feeClaim
    rw [insideGrowth_grow books.outside_lt (ordered key pos h)]
    split_ifs
    · rw [add_assoc, mul_comm growth, ← mul_add]
      exact Nat.add_le_add_left
        (Nat.mul_le_mul_left _ (wrappingSub_wrappingAdd_le insideGrowth_lt last)) _
    · exact Nat.le_add_right _ _
  calc _ ≤ collected * q64 + (feeClaims token _ positions + growth * liquidity) :=
        Nat.add_le_add_left gained _
    _ ≤ charged * q64 + fee * q64 := by
        rw [← add_assoc]
        exact Nat.add_le_add books.covered rounded
    _ = (charged + fee) * q64 := (add_mul _ _ _).symm

theorem FeeBooks.cross {info : TickInfo} {fg0 fg1 : ℕ}
    (books : FeeBooks token positions ticks (if token then fg0 else fg1) tick collected charged)
    (record : ticks.lookup next = some info)
    (sides : ∀ key pos, positions.lookup key = some pos → pos.liquidity ≠ 0 → ∀ e,
      EndsAt e key.2.1 key.2.2 → CrossesOnly next tick tick' e) :
    FeeBooks token positions (ticks.set next (crossedTick info fg0 fg1))
      (if token then fg0 else fg1) tick' collected charged := by
  have crossed : outsideAt token (ticks.set next (crossedTick info fg0 fg1)) = fun t =>
      if t = next then wrappingSub (if token then fg0 else fg1) (outsideAt token ticks t)
      else outsideAt token ticks t := by
    funext t
    unfold outsideAt
    rw [Store.getD_set]
    by_cases atNext : t = next
    · rw [if_pos atNext, atNext, getD_of_lookup record]
      cases token <;> simp only [outsideOf, crossedTick, if_true, if_false, Bool.false_eq_true]
    · rw [if_neg atNext, if_neg atNext]
  refine ⟨books.global_lt, fun t => ?_, books.last_lt, ?_⟩
  · rw [crossed]
    dsimp only
    split_ifs
    · exact wrappingSub_lt _ _
    · exact wrappingSub_lt _ _
    · exact books.outside_lt t
  · have same : feeClaims token (insideGrowth (if token then fg0 else fg1)
        (outsideAt token (ticks.set next (crossedTick info fg0 fg1))) tick') positions =
        feeClaims token (insideGrowth (if token then fg0 else fg1) (outsideAt token ticks) tick)
          positions := by
      refine Store.sumBy_congr fun key pos h => feeClaim_congr fun active => ?_
      rw [crossed]
      exact insideGrowth_cross books.outside_lt (sides key pos h active _ (.inl rfl))
        (sides key pos h active _ (.inr rfl))
    rw [same]
    exact books.covered

variable {cfg : SwapConfig} {s s' : SwapState}

/-- The tick found is the only end of a range with liquidity between the tick and the tick beyond
the one found. -/
theorem LoopBooks.sides (books : LoopBooks positions cfg s)
    (ranged : Ranged cfg.tickSpacing positions) (spacing : 0 ≤ cfg.tickSpacing)
    (found : search cfg s = .ok (next, true)) :
    ∀ key pos, positions.lookup key = some pos → pos.liquidity ≠ 0 → ∀ e,
      EndsAt e key.2.1 key.2.2 →
        CrossesOnly next s.tick (tickBeyond cfg.zeroForOne next) e := by
  intro key pos h active e ends
  have gap := books.gap ranged spacing found
  unfold CrossesOnly tickBeyond
  split_ifs at gap
  · have away : ¬ (next < e ∧ e < s.tick + 1) := fun inside =>
      active (gap.2.clear key pos h e ends inside.1 inside.2)
    split_ifs <;> omega
  · have away : ¬ (s.tick < e ∧ e < next) := fun inside =>
      active (gap.2.clear key pos h e ends inside.1 inside.2)
    split_ifs <;> omega

end Claims

/-! ## The fees of a swap -/

section Swap

variable {cfg : SwapConfig} {s s' : SwapState} {next : ℤ} {initialized : Bool} {most : ℕ}
  {cond : SwapState → Prop} {budget fees : ℕ}

/-- What an iteration takes in besides its fee. -/
def stepInput (cfg : SwapConfig) (s : SwapState) : ℕ :=
  match search cfg s with
  | .ok found =>
    if s.liquidity = 0 then 0
    else if Crosses cfg s found then (maxAmountIn cfg s found.1).toOption.getD 0
    else lessFee cfg s
  | .error _ => 0

/-- The fee of an iteration: charged on top of the input that uses up a range, or what the rest of
the input was reduced by. -/
def stepFee (cfg : SwapConfig) (s : SwapState) : ℕ :=
  match search cfg s with
  | .ok found =>
    if s.liquidity = 0 then 0
    else if Crosses cfg s found then
      (mulDivU128 (stepInput cfg s) cfg.feeBps (10000 - cfg.feeBps)).toOption.getD 0
    else s.amountRemaining - lessFee cfg s
  | .error _ => 0

theorem stepInput_cross (active : s.liquidity ≠ 0) (found : search cfg s = .ok (next, initialized))
    (crosses : Crosses cfg s (next, initialized)) (paid : maxAmountIn cfg s next = .ok most) :
    stepInput cfg s = most := by
  unfold stepInput
  rw [found]
  dsimp only
  rw [if_neg active, if_pos crosses, paid]
  rfl

theorem stepInput_within (active : s.liquidity ≠ 0)
    (found : search cfg s = .ok (next, initialized))
    (before : ¬ Crosses cfg s (next, initialized)) : stepInput cfg s = lessFee cfg s := by
  unfold stepInput
  rw [found]
  dsimp only
  rw [if_neg active, if_neg before]

theorem stepFee_empty (empty : s.liquidity = 0) : stepFee cfg s = 0 := by
  unfold stepFee
  cases search cfg s with
  | ok => exact if_pos empty
  | error => rfl

theorem swapStep_charges (active : s.liquidity ≠ 0) (h : swapStep cfg s = .ok (some s')) :
    s'.amountIn = s.amountIn + (stepInput cfg s + stepFee cfg s) := by
  rw [swapStep, if_neg active] at h
  obtain ⟨_, trade, h⟩ := bind_ok_iff.1 h
  obtain rfl := Option.some.inj (pure_ok_iff.1 h)
  obtain ⟨_, _, _, found, -, -, paid, h⟩ := tradeStep_ok trade
  unfold stepFee
  rw [found]
  dsimp only
  rw [if_neg active]
  split_ifs at h ⊢ with crosses
  · unfold crossStep at h
    simp only [ok_iff, ofMath_ok_iff] at h
    obtain ⟨_, -, feeAmount, charged, mid, settled, _, -, _, -, _, -, rfl⟩ := h
    obtain ⟨growth, settled⟩ := settle_ok settled
    rw [stepInput_cross active found crosses paid, charged]
    exact settled.amountIn
  · unfold withinStep at h
    simp only [ok_iff] at h
    obtain ⟨_, -, _, -, feeAmount, ⟨-, rfl⟩, mid, settled, rfl⟩ := h
    obtain ⟨growth, settled⟩ := settle_ok settled
    rw [stepInput_within active found crosses]
    exact settled.amountIn

theorem stepFee_of_settled {input out fee growth : ℕ} {mid : SwapState} (active : s.liquidity ≠ 0)
    (h : swapStep cfg s = .ok (some s')) (taken : stepInput cfg s = input)
    (settled : Settled cfg.zeroForOne input out fee growth s mid)
    (same : s'.amountIn = mid.amountIn) : stepFee cfg s = fee := by
  have total := swapStep_charges active h
  have part := settled.amountIn
  omega

def swapFees (cfg : SwapConfig) : ℕ → SwapState → ℕ
  | 0, _ => 0
  | budget + 1, s =>
    if 0 < s.amountRemaining then
      match swapStep cfg s with
      | .ok (some s') => stepFee cfg s + swapFees cfg budget s'
      | _ => 0
    else 0

/-- A relation between the loop variables and the fees so far that every iteration keeps holds after
the loop. -/
theorem swapLoop_fees {P : SwapState → ℕ → Prop}
    (keep : ∀ s s' fees, P s fees → swapStep cfg s = .ok (some s') → P s' (fees + stepFee cfg s))
    (start : P s fees) (h : swapLoop cfg budget s = .ok s') :
    P s' (fees + swapFees cfg budget s) := by
  induction budget generalizing s fees with
  | zero => cases h
  | succ _ ih =>
    rw [swapLoop] at h
    rw [swapFees]
    split_ifs at h ⊢
    · obtain ⟨next, step, h⟩ := bind_ok_iff.1 h
      rw [step]
      cases next with
      | none =>
        obtain rfl := pure_ok_iff.1 h
        exact start
      | some s₁ =>
        dsimp only
        rw [← add_assoc]
        exact ih (keep s s₁ fees start step) h
    · obtain rfl := pure_ok_iff.1 h
      exact start


variable {Address : Type} [DecidableEq Address] {positions : Positions Address} {token : Bool}
  {collected charged : ℕ}

/-- The claims of one token are covered in a swap loop that has charged `fees` so far. -/
def LoopFees (token : Bool) (positions : Positions Address) (collected charged : ℕ)
    (cfg : SwapConfig) (s : SwapState) (fees : ℕ) : Prop :=
  FeeBooks token positions s.ticks (grownOf token s) s.tick collected
    (charged + if token = cfg.zeroForOne then fees else 0)

theorem LoopFees.settled {input out fee growth : ℕ} (ranged : Ranged cfg.tickSpacing positions)
    (books : LoopBooks positions cfg s)
    (held : LoopFees token positions collected charged cfg s fees)
    (settled : Settled cfg.zeroForOne input out fee growth s s') :
    LoopFees token positions collected charged cfg s' (fees + fee) := by
  unfold LoopFees at held ⊢
  have grown : grownOf token s' = if token = cfg.zeroForOne then
      wrappingAdd (grownOf token s) growth else grownOf token s := by
    unfold grownOf
    rw [settled.fg0, settled.fg1]
    cases token <;> cases cfg.zeroForOne <;> simp
  rw [settled.ticks, settled.tick, grown]
  split_ifs at held ⊢
  · rw [← add_assoc]
    exact held.settle (fun key pos h => (ranged key pos h).lt) books.active settled.growth_eq
  · exact held

theorem LoopFees.step (ranged : Ranged cfg.tickSpacing positions) (spacing : 0 ≤ cfg.tickSpacing)
    (books : LoopBooks positions cfg s)
    (held : LoopFees token positions collected charged cfg s fees)
    (h : swapStep cfg s = .ok (some s')) :
    LoopFees token positions collected charged cfg s' (fees + stepFee cfg s) := by
  cases swapStep_moves h with
  | jump _ empty found _ _ crossed _ result =>
    rw [stepFee_empty empty]
    obtain ⟨_, record⟩ := books.record spacing found
    unfold crossIfPresent at crossed
    rw [record] at crossed
    obtain ⟨_, -, crossed⟩ := bind_ok_iff.1 crossed
    obtain ⟨rfl, rfl⟩ := Prod.mk.inj (pure_ok_iff.1 crossed)
    subst result
    exact FeeBooks.cross held record (books.sides ranged spacing found)
  | cross _ active found _ _ crosses _ _ _ _ paid _ _ settled _ record _ _ result =>
    subst result
    rw [stepFee_of_settled active h (stepInput_cross active found crosses paid) settled rfl]
    have after := held.settled ranged books settled
    unfold LoopFees at after
    rw [settled.ticks, settled.tick] at after
    exact FeeBooks.cross after record (books.sides ranged spacing found)
  | within _ _ active found _ before _ _ _ _ _ _ _ settled result =>
    subst result
    rw [stepFee_of_settled active h (stepInput_within active found before) settled rfl]
    have after := held.settled ranged books settled
    exact after

end Swap

/-! ## Changes of a range -/

section Ranges

variable {Address : Type} [DecidableEq Address] {amm : Address} {w w' : World Address}
  {pool : Pool Address} {token : Bool} {owner : Address} {lo hi delta : ℤ}
  {positions positions' : Positions Address} {ticks ticks' : Ticks} {bitmap bitmap' : TickBitmap}
  {minted collected charged : ℕ}

omit [DecidableEq Address] in
theorem outsideOf_updatedTick {info : TickInfo} {t currentTick : ℤ} {fg0 fg1 gross : ℕ}
    {isUpper : Bool} :
    outsideOf token (updatedTick info t currentTick delta fg0 fg1 isUpper gross) =
      if gross = 0 then 0
      else if info.liquidityGross = 0 ∧ t ≤ currentTick then (if token then fg0 else fg1)
      else outsideOf token info := by
  unfold updatedTick outsideOf
  by_cases empty : gross = 0
  · rw [if_pos empty, if_pos empty]
    exact ite_self 0
  · rw [if_neg empty, if_neg empty]
    cases token <;> simp

/-- An update of the ends of a range leaves the growth recorded at the ticks where liquidity ended
before and ends after; elsewhere it records the growth so far, or none. -/
theorem outsideAt_updated (token : Bool) (books : TickBooks pool.tickSpacing positions ticks bitmap)
    (shifted : Shifted positions positions' lo hi delta) (range : IsRange pool.tickSpacing lo hi)
    (bound : liquidityWhere (fun _ _ => True) positions + delta < (2 : ℤ) ^ 128)
    (h : updateRange pool ticks bitmap lo hi delta = .ok (ticks', bitmap')) (t : ℤ) :
    (outsideAt token ticks' t ∈ ({outsideAt token ticks t, globalOf token pool, 0} : Set ℕ)) ∧
    (liquidityWhere (EndsAt t) positions ≠ 0 → liquidityWhere (EndsAt t) positions' ≠ 0 →
      outsideAt token ticks' t = outsideAt token ticks t) := by
  have sum := shifted fun _ _ => True
  rw [if_pos trivial] at sum
  have record := (books.records shifted range (by omega) h).1 t
  unfold outsideAt
  rw [record]
  by_cases ends : t = lo ∨ t = hi
  · rw [if_pos ends, outsideOf_updatedTick, books.gross]
    constructor
    · split_ifs <;> simp [globalOf, *]
    · intro before after
      rw [if_neg after, if_neg fun first => before first.1]
  · rw [if_neg ends]
    exact ⟨.inl rfl, fun _ _ => rfl⟩

theorem inside_kept (global : ℕ) (tick : ℤ)
    (kept : ∀ t, liquidityWhere (EndsAt t) positions ≠ 0 →
      liquidityWhere (EndsAt t) positions' ≠ 0 → outsideAt token ticks' t = outsideAt token ticks t)
    {key : Address × ℤ × ℤ} {before after : PositionInfo}
    (hb : positions.lookup key = some before) (activeBefore : before.liquidity ≠ 0)
    (ha : positions'.lookup key = some after) (activeAfter : after.liquidity ≠ 0) :
    insideGrowth global (outsideAt token ticks') tick key.2.1 key.2.2 =
      insideGrowth global (outsideAt token ticks) tick key.2.1 key.2.2 := by
  have same : ∀ t, EndsAt t key.2.1 key.2.2 →
      outsideAt token ticks' t = outsideAt token ticks t := fun t ends =>
    kept t (fun none => activeBefore (liquidity_eq_zero none hb ends))
      (fun none => activeAfter (liquidity_eq_zero none ha ends))
  unfold insideGrowth
  rw [same _ (.inl rfl), same _ (.inr rfl)]

/-- The claims on the fees of a token are covered in a state. -/
def Covered (token : Bool) (pool : Pool Address) (w : World Address) (collected charged : ℕ) :
    Prop :=
  FeeBooks token w.positions w.ticks (globalOf token pool) pool.currentTick collected charged

theorem Covered.change (owner : Address) (lo hi : ℤ) (pos : PositionInfo) (paid : ℕ)
    (fees : Covered token pool w collected charged)
    (outside : ∀ t, outsideAt token ticks' t ∈
      ({outsideAt token w.ticks t, globalOf token pool, 0} : Set ℕ))
    (kept : ∀ t, liquidityWhere (EndsAt t) w.positions ≠ 0 →
      liquidityWhere (EndsAt t) (w.positions.set (owner, lo, hi) pos) ≠ 0 →
      outsideAt token ticks' t = outsideAt token w.ticks t)
    (last : lastOf token pos < 2 ^ 128)
    (own : paid * q64 + feeClaim token (growthInside token pool ticks') (owner, lo, hi) pos ≤
      Store.share (feeClaim token (growthInside token pool w.ticks)) w.positions (owner, lo, hi)) :
    FeeBooks token (w.positions.set (owner, lo, hi) pos) ticks' (globalOf token pool)
      pool.currentTick (collected + paid) charged := by
  refine ⟨fees.global_lt, fun t => ?_, Store.forall_set fees.last_lt last, ?_⟩
  · obtain same | same | same := outside t
    · rw [same]
      exact fees.outside_lt t
    · rw [same]
      exact fees.global_lt
    · rw [same]
      norm_num
  · have others : Store.sumBy (feeClaim token (growthInside token pool ticks'))
        (w.positions.remove (owner, lo, hi)) =
          Store.sumBy (feeClaim token (growthInside token pool w.ticks))
            (w.positions.remove (owner, lo, hi)) := by
      refine Store.sumBy_congr fun other p h => feeClaim_congr fun active => ?_
      rw [Store.lookup_remove] at h
      split_ifs at h with ne
      exact inside_kept (globalOf token pool) pool.currentTick kept h active
        (by rw [Store.lookup_set_of_ne _ _ ne]; exact h) active
    have covered := fees.covered
    unfold growthInside at own others
    unfold feeClaims at covered ⊢
    rw [Store.sumBy_eq_share_add_remove _ w.positions (owner, lo, hi)] at covered
    rw [Store.sumBy_set, add_mul]
    omega

theorem FeeBooks.remove {global : ℕ} {tick : ℤ} {key : Address × ℤ × ℤ} {pos : PositionInfo}
    (fees : FeeBooks token (positions.set key pos) ticks global tick collected charged) :
    FeeBooks token (positions.remove key) ticks global tick collected charged := by
  refine ⟨fees.global_lt, fees.outside_lt, fun other p h => ?_,
    (Nat.add_le_add_left ?_ _).trans fees.covered⟩
  · rw [Store.lookup_remove] at h
    split_ifs at h with ne
    exact fees.last_lt other p (by rw [Store.lookup_set_of_ne _ _ ne]; exact h)
  · unfold feeClaims
    exact Nat.le_add_left _ _

/-! ## The calls -/

variable {pool' : Pool Address} {env : Env amm} {liquidity a b : ℕ}

theorem Covered.mint {x y : ℕ} (books : Books pool w minted) (hp : w.pool = some pool)
    (bound : minted + liquidity < 2 ^ 127) (fees : Covered token pool w collected charged)
    (h : ConcentratedAmm.mint env owner lo hi x y w = .ok ((liquidity, a, b), w'))
    (hp' : w'.pool = some pool') : Covered token pool' w' collected charged := by
  obtain ⟨shifted, update⟩ := mint_shifts hp (by omega) h
  obtain ⟨_, ticks, _, pos, _, -, range, -, nonzero, -, -, accrued, -, -, rfl⟩ := mint_ok hp h
  obtain rfl := Option.some.inj hp'
  have total := books.total
  have updated := outsideAt_updated token books.ticks shifted range (by omega) update
  obtain ⟨last, owed⟩ := accrue_claim token accrued owner
  have own : feeClaim token (growthInside token pool ticks) (owner, lo, hi)
      { pos with liquidity := pos.liquidity + liquidity } = owedOf token pos * q64 :=
    feeClaim_updated last
  have before : feeClaim token (growthInside token pool ticks) (owner, lo, hi)
      (w.positions.getD (owner, lo, hi)
        ⟨0, (feeGrowthInside pool ticks lo hi).1, (feeGrowthInside pool ticks lo hi).2, 0, 0⟩) ≤
      Store.share (feeClaim token (growthInside token pool w.ticks)) w.positions
        (owner, lo, hi) := by
    unfold Store.share Store.getD
    cases hb : w.positions.lookup (owner, lo, hi) with
    | none => simp [feeClaim, owedOf]
    | some =>
      rw [Option.elim_some]
      refine (feeClaim_congr fun activeBefore => ?_).le
      exact inside_kept _ _ (fun t => (updated t).2) hb activeBefore (Store.lookup_set_self ..)
        (Nat.add_pos_right _ (Nat.pos_of_ne_zero nonzero)).ne'
  refine Covered.change owner lo hi _ 0 fees (fun t => (updated t).1) (fun t => (updated t).2)
    ?_ ?_
  · exact last.trans_lt insideGrowth_lt
  · rw [zero_mul, zero_add]
    exact own.le.trans (owed.trans before)

theorem Covered.burn (books : Books pool w minted) (hp : w.pool = some pool)
    (bound : minted < 2 ^ 127) (fees : Covered token pool w collected charged)
    (h : ConcentratedAmm.burn env owner lo hi liquidity w = .ok ((a, b), w'))
    (hp' : w'.pool = some pool') : Covered token pool' w' collected charged := by
  obtain ⟨-, update⟩ := books.burn_shifts hp bound h
  obtain ⟨before, pos, ticks, _, _, _, -, hb, _, -, -, -, accrued, -, -, -, -, rfl⟩ := burn_ok hp h
  obtain rfl := Option.some.inj hp'
  have range := books.ranged _ _ hb
  have same := accrue_liquidity accrued
  have shifted := shifted_set w.positions owner lo hi
    { pos with liquidity := pos.liquidity - liquidity }
  have change : ((pos.liquidity - liquidity : ℕ) : ℤ) - liquidityAt w.positions (owner, lo, hi) =
      -liquidity := by
    rw [liquidityAt_of_lookup hb]
    omega
  rw [change] at shifted
  have total := books.total
  have updated := outsideAt_updated token books.ticks shifted range (by omega) update
  obtain ⟨last, owed⟩ := accrue_claim token accrued owner
  have own : feeClaim token (growthInside token pool ticks) (owner, lo, hi)
      { pos with liquidity := pos.liquidity - liquidity } = owedOf token pos * q64 := by
    refine (feeClaim_congr fun left => ?_).trans (feeClaim_updated last)
    have activeBefore : before.liquidity ≠ 0 := by
      dsimp only at left
      omega
    exact inside_kept _ _ (fun t => (updated t).2) hb activeBefore (Store.lookup_set_self ..) left
  have after := Covered.change owner lo hi { pos with liquidity := pos.liquidity - liquidity } 0
    fees (fun t => (updated t).1) (fun t => (updated t).2) (last.trans_lt insideGrowth_lt) (by
      rw [zero_mul, zero_add, Store.share, hb, Option.elim_some]
      exact own.le.trans owed)
  unfold burnedPositions
  split_ifs
  · exact after.remove
  · exact after

theorem Covered.collectFees (hp : w.pool = some pool)
    (fees : Covered token pool w collected charged)
    (h : ConcentratedAmm.collectFees env owner lo hi w = .ok ((a, b), w')) :
    Covered token pool w' (collected + if token then a else b) charged := by
  obtain ⟨_, pos, _, -, hb, accrued, rfl, rfl, -, rfl⟩ := collectFees_ok hp h
  obtain ⟨last, owed⟩ := accrue_claim token accrued owner
  have own : feeClaim token (growthInside token pool w.ticks) (owner, lo, hi)
      { pos with tokensOwed0 := 0, tokensOwed1 := 0 } = 0 :=
    (feeClaim_updated last).trans (by simp [owedOf])
  have after := Covered.change owner lo hi { pos with tokensOwed0 := 0, tokensOwed1 := 0 }
    (owedOf token pos) fees (fun t => .inl rfl) (fun t _ _ => rfl)
    (last.trans_lt insideGrowth_lt) (by
      rw [own, add_zero, Store.share, hb, Option.elim_some]
      exact owed)
  change FeeBooks token (collectedPositions w.positions owner lo hi pos) w.ticks _ _
    (collected + owedOf token pos) charged
  unfold collectedPositions
  split_ifs
  · exact after.remove
  · exact after

theorem Covered.swap {trader : Address} {zeroForOne : Bool} {amountSpecified budget : ℕ}
    (books : Books pool w minted) (hp : w.pool = some pool) (bound : minted < 2 ^ 127)
    (fees : Covered token pool w collected charged)
    (h : ConcentratedAmm.swap env trader zeroForOne amountSpecified budget w = .ok ((a, b), w'))
    (hp' : w'.pool = some pool') :
    Covered token pool' w' collected (charged + if token = zeroForOne then
      swapFees (swapConfig pool w zeroForOne) budget (swapStart pool w amountSpecified)
      else 0) := by
  obtain ⟨s, _, _, -, loop, -, -, -, -, rfl⟩ := swap_ok hp h
  obtain rfl := Option.some.inj hp'
  have total := books.total
  have fits : liquidityWhere (fun _ _ => True) w.positions < 2 ^ 128 := by omega
  have start : LoopBooks w.positions (swapConfig pool w zeroForOne)
      (swapStart pool w amountSpecified) ∧ LoopFees token w.positions collected charged
        (swapConfig pool w zeroForOne) (swapStart pool w amountSpecified) 0 := by
    refine ⟨⟨books.ticks, books.active⟩, ?_⟩
    unfold LoopFees
    rw [ite_self]
    cases token <;> exact fees
  have after := swapLoop_fees (P := fun s fees => LoopBooks w.positions
    (swapConfig pool w zeroForOne) s ∧ LoopFees token w.positions collected charged
      (swapConfig pool w zeroForOne) s fees)
    (fun s _ fees held step =>
      ⟨held.1.move books.ranged books.spacing fits (swapStep_moves step),
        held.2.step books.ranged books.spacing held.1 step⟩)
    start loop
  rw [zero_add] at after
  cases token <;> exact after.2

end Ranges

/-! ## Mints that fit -/

section Mints

/-- A bound on the liquidity that a mint can get for its amounts. -/
def mintLimit (price ratioA ratioB x y : ℕ) : ℕ :=
  if price ≤ ratioA then x * (ratioA * ratioB) / ((ratioB - ratioA) * q64)
  else y * q64 / (min price ratioB - ratioA)

theorem mintAmounts_le_limit {price ratioA ratioB x y liquidity amountA amountB : ℕ}
    (gap : ratioA < ratioB)
    (h : mintAmounts price ratioA ratioB x y = .ok (liquidity, amountA, amountB)) :
    liquidity ≤ mintLimit price ratioA ratioB x y := by
  unfold mintLimit
  rcases mintAmounts_ok h with
    ⟨below, -, -, bound⟩ | ⟨above, above', -, -, bound⟩ | ⟨inLower, inUpper, -, -⟩
  · rw [if_pos below, Nat.le_div_iff_mul_le (Nat.mul_pos (Nat.sub_pos_of_lt gap) q64_pos),
      ← mul_assoc]
    exact bound
  · rw [if_neg (not_le.2 above), min_eq_right above', Nat.le_div_iff_mul_le (Nat.sub_pos_of_lt gap)]
    exact bound
  · rw [if_neg (not_le.2 inLower), min_eq_left inUpper.le]
    unfold mintAmounts at h
    rw [if_neg (not_le.2 inLower), if_neg (not_le.2 inUpper)] at h
    simp only [ok_iff, ofMath_ok_iff, checkedSub_ok_iff] at h
    obtain ⟨_, -, _, -, _, -, _, -, _, ⟨-, rfl⟩, _, spread, _, -, _, -, rfl, -⟩ := h
    refine le_trans ?_ (mulDivU128_le spread).2
    split_ifs with less
    · exact less.le
    · exact le_rfl

variable {Address : Type} [DecidableEq Address] {amm : Address} {w w' : World Address}
  {pool : Pool Address}

/-- A mint leaves the total liquidity below `2 ^ 127`, whatever it gets for its amounts. -/
def MintsFit (w : World Address) : Action amm → Prop
  | .call _ (.mint _ lo hi x y) => ∀ pool ∈ w.pool,
      liquidityWhere (fun _ _ => True) w.positions +
        mintLimit pool.currentSqrtPrice (sqrtRatio lo) (sqrtRatio hi) x y < 2 ^ 127
  | _ => True

instance (w : World Address) : ∀ action : Action amm, Decidable (MintsFit w action)
  | .call _ (.mint ..) => inferInstanceAs (Decidable (∀ pool ∈ w.pool, _))
  | .call _ (.burn ..) => isTrue trivial
  | .call _ (.collectFees ..) => isTrue trivial
  | .call _ (.swap ..) => isTrue trivial
  | .external _ => isTrue trivial

/-- The liquidity in the books, kept as the total of the positions. -/
structure FullBooks (pool : Pool Address) (w : World Address) : Prop where
  books : Books pool w (liquidityWhere (fun _ _ => True) w.positions)
  fits : liquidityWhere (fun _ _ => True) w.positions < 2 ^ 127

theorem Books.full {minted : ℕ} (books : Books pool w minted) (bound : minted < 2 ^ 127) :
    FullBooks pool w :=
  ⟨{ books with total := le_rfl }, books.total.trans_lt bound⟩

theorem mint_fits {env : Env amm} {owner : Address} {lo hi : ℤ} {x y liquidity a b : ℕ}
    (hp : w.pool = some pool) (fit : MintsFit w (.call env (.mint owner lo hi x y)))
    (h : mint env owner lo hi x y w = .ok ((liquidity, a, b), w')) :
    liquidityWhere (fun _ _ => True) w.positions + liquidity < 2 ^ 127 := by
  obtain ⟨_, _, _, _, _, -, range, amounts, -, -, -, -, -, -, -⟩ := mint_ok hp h
  have limit := mintAmounts_le_limit
    (sqrtRatio_strictMono range.validLower range.validUpper range.lt) amounts
  have room := fit pool hp
  omega

theorem FullBooks.step {action : Action amm} (full : FullBooks pool w) (hp : w.pool = some pool)
    (fit : MintsFit w action) (step : Step amm w action w') :
    ∃ pool', w'.pool = some pool' ∧ FullBooks pool' w' := by
  have bound : liquidityWhere (fun _ _ => True) w.positions + mintedBy w action < 2 ^ 127 := by
    have fits := full.fits
    cases action with
    | external => exact fits
    | call _ c =>
      cases c with
      | mint =>
        obtain ⟨⟨_, a, b⟩, h⟩ := map_snd_ok_iff.1 step.2
        rw [mintedBy, h]
        exact mint_fits hp fit h
      | burn | collectFees | swap => exact fits
  obtain ⟨pool', hp', books⟩ := full.books.step hp rfl bound step
  exact ⟨pool', hp', books.full bound⟩

end Mints

/-! ## Runs -/

section Runs

variable {Address : Type} [DecidableEq Address] {amm : Address} {w w' : World Address}
  {pool pool' : Pool Address} {token : Bool} {collected charged : ℕ} {env : Env amm}

def chargedBy (w : World Address) (token : Bool) : Action amm → ℕ
  | .call _ (.swap _ zeroForOne amountSpecified budget) =>
    if token = zeroForOne then
      w.pool.elim 0 fun pool =>
        swapFees (swapConfig pool w zeroForOne) budget (swapStart pool w amountSpecified)
    else 0
  | _ => 0

def collectedBy (w : World Address) (token : Bool) : Action amm → ℕ
  | .call env (.collectFees owner lo hi) =>
    match collectFees env owner lo hi w with
    | .ok ((amount0, amount1), _) => if token then amount0 else amount1
    | .error _ => 0
  | _ => 0

theorem covered_step {action : Action amm} (full : FullBooks pool w) (hp : w.pool = some pool)
    (fit : MintsFit w action) (fees : Covered token pool w collected charged)
    (step : Step amm w action w') (hp' : w'.pool = some pool') :
    Covered token pool' w' (collected + collectedBy w token action)
      (charged + chargedBy w token action) := by
  cases action with
  | external =>
    obtain ⟨-, rfl⟩ := step
    obtain rfl := Option.mem_unique hp hp'
    exact fees
  | call _ c =>
    obtain ⟨-, step⟩ := step
    cases c with
    | mint =>
      obtain ⟨⟨_, a, b⟩, h⟩ := map_snd_ok_iff.1 step
      exact fees.mint full.books hp (mint_fits hp fit h) h hp'
    | burn =>
      obtain ⟨⟨a, b⟩, h⟩ := map_snd_ok_iff.1 step
      exact fees.burn full.books hp full.fits h hp'
    | collectFees =>
      obtain ⟨⟨a, b⟩, h⟩ := map_snd_ok_iff.1 step
      obtain rfl := Option.some.inj ((full.books.collectFees hp h).1.symm.trans hp')
      rw [collectedBy, h]
      exact fees.collectFees hp h
    | swap =>
      obtain ⟨⟨a, b⟩, h⟩ := map_snd_ok_iff.1 step
      rw [chargedBy, hp]
      exact fees.swap full.books hp full.fits h hp'

theorem covered_initial (init : Initial amm w) (hp : w.pool = some pool) :
    Covered token pool w 0 0 := by
  obtain ⟨_, _, _, _, _, _, _, -, -, -, -, -, h⟩ := init
  obtain rfl := pure_ok_iff.1 h
  obtain rfl := Option.some.inj hp
  refine ⟨?_, fun t => ?_, fun _ _ h => (by cases h), ?_⟩
  · cases token <;> exact Nat.two_pow_pos 128
  · cases token <;> exact Nat.two_pow_pos 128
  · simp [feeClaims]

/-- A state with the fees charged and paid out so far in each token. -/
structure Audited (Address : Type) where
  world : World Address
  charged : Bool → ℕ
  collected : Bool → ℕ

def AuditedStep (amm : Address) (a : Audited Address) (action : Action amm)
    (a' : Audited Address) : Prop :=
  Step amm a.world action a'.world ∧
    a'.charged = (fun token => a.charged token + chargedBy a.world token action) ∧
    a'.collected = fun token => a.collected token + collectedBy a.world token action

def AuditedInitial (amm : Address) (a : Audited Address) : Prop :=
  Initial amm a.world ∧ a.charged = 0 ∧ a.collected = 0

def pendingFee (token : Bool) (pool : Pool Address) (ticks : Ticks) (key : Address × ℤ × ℤ)
    (pos : PositionInfo) : ℕ :=
  let inside := feeGrowthInside pool ticks key.2.1 key.2.2
  (mulDivU128 pos.liquidity
    (wrappingSub (if token then inside.1 else inside.2) (lastOf token pos)) q64).toOption.getD 0

def totalOwed (token : Bool) (pool : Pool Address) (w : World Address) : ℕ :=
  Store.sumBy (fun key pos => owedOf token pos + pendingFee token pool w.ticks key pos) w.positions

omit [DecidableEq Address] in
theorem feeGrowthInside_eq (token : Bool) (pool : Pool Address) (ticks : Ticks) (lo hi : ℤ) :
    (if token then (feeGrowthInside pool ticks lo hi).1 else (feeGrowthInside pool ticks lo hi).2) =
      growthInside token pool ticks lo hi := by
  unfold feeGrowthInside getFeeGrowthInside growthInside insideGrowth globalOf outsideAt outsideOf
  cases token <;> simp only [Bool.false_eq_true, if_true, if_false]

theorem Covered.totalOwed_le (fees : Covered token pool w collected charged) :
    collected + totalOwed token pool w ≤ charged := by
  have claims : q64 * totalOwed token pool w ≤
      feeClaims token (growthInside token pool w.ticks) w.positions := by
    rw [totalOwed, Store.mul_sumBy]
    refine Store.sumBy_mono fun _ _ _ => ?_
    rw [mul_comm q64, add_mul]
    refine Nat.add_le_add_left ?_ _
    unfold pendingFee
    dsimp only
    rw [feeGrowthInside_eq]
    generalize wrappingSub _ _ = growth
    cases h : mulDivU128 _ growth q64 with
    | error => simp [Except.toOption]
    | ok =>
      exact Nat.mul_le_of_le_div _ _ _ (mulDivU128_le h).2
  refine le_of_mul_le_mul_left ?_ q64_pos
  rw [mul_add, mul_comm q64 collected, mul_comm q64 charged]
  exact (Nat.add_le_add_left claims _).trans fees.covered

/-- In a pool with a non-negative tick spacing, as long as no mint can take the total liquidity to
`2 ^ 127`, the fees paid out and owed are at most the fees charged, in each token. -/
theorem fees_conserved {a : Audited Address}
    (reach : Reachable
      (fun a => AuditedInitial amm a ∧ ∀ pool ∈ a.world.pool, 0 ≤ pool.tickSpacing)
      (Guarded (fun a => MintsFit a.world) (AuditedStep amm)) a) :
    ∃ pool, a.world.pool = some pool ∧
      ∀ token, a.collected token + totalOwed token pool a.world ≤ a.charged token := by
  have covered : ∃ pool, a.world.pool = some pool ∧ FullBooks pool a.world ∧
      ∀ token, Covered token pool a.world (a.collected token) (a.charged token) := by
    refine reach.invariant (P := fun a => ∃ pool, a.world.pool = some pool ∧
      FullBooks pool a.world ∧
        ∀ token, Covered token pool a.world (a.collected token) (a.charged token)) ?_ ?_
    · rintro _ ⟨⟨init, charged, collected⟩, spacing⟩
      obtain ⟨pool, hp⟩ := initial_pool init
      rw [charged, collected]
      exact ⟨pool, hp, (books_initial init hp (spacing pool hp)).full (by norm_num),
        fun token => covered_initial init hp⟩
    · rintro _ _ _ ⟨pool, hp, full, covered⟩ ⟨fit, step, charged, collected⟩
      obtain ⟨pool', hp', full'⟩ := full.step hp fit step
      rw [charged, collected]
      exact ⟨pool', hp', full', fun token => covered_step full hp fit (covered token) step hp'⟩
  obtain ⟨pool, hp, -, covered⟩ := covered
  exact ⟨pool, hp, fun token => (covered token).totalOwed_le⟩

def auditedExec (env : Env amm) (a : Audited Address) (call : Call Address) :
    Outcome Error (Audited Address) := do
  let w ← exec env a.world call
  pure ⟨w, fun token => a.charged token + chargedBy a.world token (.call env call),
    fun token => a.collected token + collectedBy a.world token (.call env call)⟩

def auditedRun (cond : Audited Address → Action amm → Prop) [∀ a, DecidablePred (cond a)]
    (env : Env amm) : Audited Address → List (Call Address) → Outcome Error (Audited Address)
  | a, [] => pure a
  | a, call :: calls => do
    reject (¬ (call.Typed ∧ cond a (.call env call))) .mathError
    let a ← auditedExec env a call
    auditedRun cond env a calls

theorem auditedRun_reachable {cond : Audited Address → Action amm → Prop}
    [∀ a, DecidablePred (cond a)] {init : Audited Address → Prop}
    {a a' : Audited Address} {calls : List (Call Address)}
    (reach : Reachable init (Guarded cond (AuditedStep amm)) a)
    (h : auditedRun cond env a calls = .ok a') :
    Reachable init (Guarded cond (AuditedStep amm)) a' := by
  induction calls generalizing a with
  | nil =>
    obtain rfl := pure_ok_iff.1 h
    exact reach
  | cons _ _ ih =>
    obtain ⟨_, checked, h⟩ := bind_ok_iff.1 h
    obtain ⟨_, step, h⟩ := bind_ok_iff.1 h
    obtain ⟨typed, meets⟩ := not_not.1 (reject_ok_iff.1 checked)
    obtain ⟨w, hw, step⟩ := bind_ok_iff.1 step
    obtain rfl := pure_ok_iff.1 step
    exact ih (reach.next_guarded ⟨step_call typed hw, rfl, rfl⟩ meets) h

end Runs

/-! ## Pools of both signs -/

/-- A pool with a fee at tick 0, with two positions; after a first swap its fees are collected, then
a second swap uses up the range around the price. -/
def feePool (cond : Audited ℕ → Action 0 → Prop) [∀ a, DecidablePred (cond a)] (tickSpacing : ℤ) :
    Outcome Error (Audited ℕ) := do
  let w ← initializePool 8 9 30 tickSpacing q64 0 { tokens := plenty }
  auditedRun cond signed ⟨w, 0, 0⟩
    [.mint 1 (-10) 10 1000000 1000000, .mint 1 100 110 1000000 1000000, .swap 2 false 1000 5,
      .collectFees 1 (-10) 10, .swap 2 false 1005000 5]

theorem feePool_reachable {cond : Audited ℕ → Action 0 → Prop} [∀ a, DecidablePred (cond a)]
    {tickSpacing : ℤ} (range : IsI32 tickSpacing) {a : Audited ℕ} {P : Audited ℕ → Prop}
    (start : ∀ w, initializePool 8 9 30 tickSpacing q64 0 { tokens := plenty } = .ok w →
      P ⟨w, 0, 0⟩)
    (h : feePool cond tickSpacing = .ok a) :
    Reachable (fun a => AuditedInitial 0 a ∧ P a) (Guarded cond (AuditedStep 0)) a := by
  obtain ⟨w, hw, h⟩ := bind_ok_iff.1 h
  have init : Initial 0 w := ⟨8, 9, 30, tickSpacing, q64, 0, plenty, plenty_nonneg, by decide,
    range, by decide, by decide, hw⟩
  exact auditedRun_reachable (Reachable.start ⟨⟨init, rfl, rfl⟩, start w hw⟩) h

/-- With spacing 1 the position is owed less than the second swap was charged. -/
theorem feePool_conserved :
    ∃ (a : Audited ℕ) (pool : Pool ℕ), feePool (fun a => MintsFit a.world) 1 = .ok a ∧
      a.world.pool = some pool ∧ 0 < a.collected false ∧ 0 < totalOwed false pool a.world ∧
      a.collected false + totalOwed false pool a.world ≤ a.charged false := by
  obtain ⟨a, ha, collected, owed⟩ : ∃ a, feePool (fun a => MintsFit a.world) 1 = .ok a ∧
      0 < a.collected false ∧ ∀ pool ∈ a.world.pool, 0 < totalOwed false pool a.world := by
    decide +kernel
  have reach := feePool_reachable
    (P := fun a => ∀ pool ∈ a.world.pool, 0 ≤ pool.tickSpacing) (by decide) (fun w hw => by
      obtain rfl := pure_ok_iff.1 hw
      rintro pool ⟨⟩
      decide) ha
  obtain ⟨pool, hp, conserved⟩ := fees_conserved reach
  exact ⟨a, pool, ha, hp, collected, owed pool hp, conserved false⟩

/-- With spacing -1 the second swap crosses the lower end of the range it is in, upward.  The growth
inside the range falls below what the position has recorded, and wraps around. -/
theorem negative_spacing_inflates_fees :
    ∃ a : Audited ℕ, Reachable (AuditedInitial 0) (AuditedStep 0) a ∧
      ∃ pool, a.world.pool = some pool ∧
        a.charged false + 2 ^ 94 < a.collected false + totalOwed false pool a.world := by
  obtain ⟨a, ha, inflated⟩ : ∃ a, feePool (fun _ _ => True) (-1) = .ok a ∧
      ∃ pool ∈ a.world.pool,
        a.charged false + 2 ^ 94 < a.collected false + totalOwed false pool a.world := by
    decide +kernel
  have reach := feePool_reachable (P := fun _ => True) (by decide) (fun _ _ => trivial) ha
  exact ⟨a, reach.of_guarded.of_init fun _ init => init.1, inflated⟩

end ConcentratedAmm
