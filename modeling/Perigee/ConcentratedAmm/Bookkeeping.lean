import Perigee.ConcentratedAmm.Bitmap
import Perigee.ConcentratedAmm.TickPrice

/-!
# Bookkeeping of liquidity

The liquidity of the positions is kept in three more places: the record of each tick where a range
ends, the bitmap of those ticks, and the active liquidity of the pool.  With a non-negative tick
spacing, and less than `2 ^ 127` minted in total, all of them agree with the positions (`Books`).
-/

namespace ConcentratedAmm

open Soroban

def EndsAt (t lo hi : ℤ) : Prop := lo = t ∨ hi = t

def Covers (t lo hi : ℤ) : Prop := lo ≤ t ∧ t < hi

instance (t : ℤ) : DecidableRel (EndsAt t) := fun _ _ => inferInstanceAs (Decidable (_ ∨ _))

instance (t : ℤ) : DecidableRel (Covers t) := fun _ _ => inferInstanceAs (Decidable (_ ∧ _))

section Positions

variable {Address : Type} {positions positions' : Positions Address} {owner : Address}
  {lo hi tick next tickSpacing : ℤ} {p : ℤ → ℤ → Prop} {pos before : PositionInfo}
  {key : Address × ℤ × ℤ} {delta currentTick : ℤ} {isUpper flipped : Bool}
  {fg0 fg1 liquidity active : ℕ} {pool : Pool Address} {info : TickInfo}

/-! ## Tick records -/

def updatedTick (info : TickInfo) (tick currentTick delta : ℤ) (fg0 fg1 : ℕ) (isUpper : Bool)
    (gross : ℕ) : TickInfo :=
  if gross = 0 then emptyTick
  else
    { liquidityGross := gross
      liquidityNet := info.liquidityNet + if isUpper then -delta else delta
      feeGrowthOutside0 := if info.liquidityGross = 0 ∧ tick ≤ currentTick then fg0
        else info.feeGrowthOutside0
      feeGrowthOutside1 := if info.liquidityGross = 0 ∧ tick ≤ currentTick then fg1
        else info.feeGrowthOutside1 }

variable {gross : ℕ}

theorem updatedTick_gross :
    (updatedTick info tick currentTick delta fg0 fg1 isUpper gross).liquidityGross = gross := by
  by_cases zero : gross = 0
  · rw [updatedTick, zero]
    rfl
  · rw [updatedTick, if_neg zero]

theorem updatedTick_net :
    (updatedTick info tick currentTick delta fg0 fg1 isUpper gross).liquidityNet =
      if gross = 0 then 0 else info.liquidityNet + if isUpper then -delta else delta := by
  by_cases zero : gross = 0
  · rw [updatedTick, if_pos zero, if_pos zero]
    rfl
  · rw [updatedTick, if_neg zero, if_neg zero]

theorem saturatingAddSigned_ok {x r : ℕ} (h : saturatingAddSigned x delta = .ok r) {sum : ℕ}
    (hs : (sum : ℤ) = x + delta) (fits : sum < 2 ^ 128) : r = sum := by
  unfold saturatingAddSigned at h
  split_ifs at h with negative
  · obtain ⟨_, magnitude, h⟩ := bind_ok_iff.1 h
    obtain ⟨-, rfl⟩ := i128_ok_iff.1 magnitude
    obtain rfl := pure_ok_iff.1 h
    omega
  · obtain rfl := pure_ok_iff.1 h
    unfold saturatingAdd
    omega

theorem netDelta_ok {r : ℤ} (h : netDelta delta isUpper = .ok r) :
    r = if isUpper then -delta else delta := by
  unfold netDelta at h
  split_ifs at h ⊢
  · exact (i128_ok_iff.1 h).2.symm
  · exact (pure_ok_iff.1 h).symm

theorem updateTick_ok {ticks ticks' : Ticks}
    (h : updateTick ticks tick currentTick delta fg0 fg1 isUpper = .ok (flipped, ticks')) :
    ∃ gross, saturatingAddSigned (ticks.getD tick emptyTick).liquidityGross delta = .ok gross ∧
      IsI128 ((ticks.getD tick emptyTick).liquidityNet + if isUpper then -delta else delta) ∧
      (flipped = true ↔ ((ticks.getD tick emptyTick).liquidityGross = 0 ↔ gross ≠ 0)) ∧
      ∀ t, ticks'.getD t emptyTick =
        if t = tick then updatedTick (ticks.getD tick emptyTick) tick currentTick delta fg0 fg1
          isUpper gross
        else ticks.getD t emptyTick := by
  unfold updateTick at h
  simp only [ok_iff] at h
  obtain ⟨_, hd, _, ⟨net, rfl⟩, gross, hs, rfl, rfl⟩ := h
  obtain rfl := netDelta_ok hd
  refine ⟨gross, hs, ?_, by rw [decide_eq_true_eq]; omega, fun t => ?_⟩
  · split_ifs at net ⊢ <;> exact net
  · by_cases zero : gross = 0
    · rw [updatedTick, if_pos zero, Store.getD, Store.lookup_remove]
      split_ifs <;> rfl
    · rw [updatedTick, if_neg zero, Store.getD_set]
      split_ifs <;> rfl

def BitsMatch (tickSpacing : ℤ) (ticks : Ticks) (bitmap : TickBitmap) : Prop :=
  ∀ t, tickSpacing ∣ t →
    (tickBit bitmap tickSpacing t = true ↔ 0 < (ticks.getD t emptyTick).liquidityGross)

variable {ticks ticks' : Ticks} {bitmap bitmap' : TickBitmap}

theorem BitsMatch.update (bits : BitsMatch tickSpacing ticks bitmap) (dvd : tickSpacing ∣ tick)
    (h : updateTick ticks tick currentTick delta fg0 fg1 isUpper = .ok (flipped, ticks'))
    (flip : flipIf flipped bitmap tick tickSpacing = .ok bitmap') :
    BitsMatch tickSpacing ticks' bitmap' := by
  obtain ⟨_, -, -, _, record⟩ := updateTick_ok h
  intro t ht
  have before := bits t ht
  rw [record, flipIf_ok flip dvd ht]
  by_cases same : t = tick
  · subst same
    rw [if_pos rfl, updatedTick_gross, decide_eq_true rfl]
    cases flipped <;> cases bit : tickBit bitmap tickSpacing t <;> simp_all <;> omega
  · rw [if_neg same, decide_eq_false same, Bool.and_false, Bool.xor_false]
    exact before

variable {cfg : SwapConfig} {s s' : SwapState}

theorem search_spacing_pos (spacing : 0 ≤ cfg.tickSpacing) {found : ℤ × Bool}
    (h : search cfg s = .ok found) : 0 < cfg.tickSpacing := by
  obtain ⟨q, hq, -⟩ := bind_ok_iff.1 h
  exact lt_of_le_of_ne spacing (spacing_ne_zero hq).symm

theorem search_found (spacing : 0 ≤ cfg.tickSpacing) (found : search cfg s = .ok (next, true)) :
    cfg.tickSpacing ∣ next ∧ tickBit cfg.tickBitmap cfg.tickSpacing next = true ∧
    if cfg.zeroForOne then next ≤ s.tick ∧ ∀ t, cfg.tickSpacing ∣ t → next < t → t < s.tick + 1 →
      tickBit cfg.tickBitmap cfg.tickSpacing t = false
    else s.tick < next ∧ ∀ t, cfg.tickSpacing ∣ t → s.tick < t → t < next →
      tickBit cfg.tickBitmap cfg.tickSpacing t = false := by
  have positive := search_spacing_pos spacing found
  unfold search at found
  cases down : cfg.zeroForOne with
  | true =>
    rw [down] at found
    obtain ⟨dvd, le, set, clear⟩ := search_down positive found
    exact ⟨dvd, set, le, fun t ht above below => clear t ht above (Int.lt_add_one_iff.1 below)⟩
  | false =>
    rw [down] at found
    obtain ⟨dvd, lt, set, clear⟩ := search_up positive found
    exact ⟨dvd, set, lt, clear⟩

theorem activeLiquidity_mint {before : ℕ}
    (h : activeLiquidity currentTick lo hi before (u128 (before + liquidity)) = .ok active) :
    active = before + if Covers currentTick lo hi then liquidity else 0 := by
  change (if Covers currentTick lo hi then _ else _) = _ at h
  by_cases covers : Covers currentTick lo hi
  · rw [if_pos covers] at h ⊢
    exact (u128_ok_iff.1 h).2.symm
  · rw [if_neg covers] at h ⊢
    exact (pure_ok_iff.1 h).symm

theorem activeLiquidity_burn {before : ℕ}
    (h : activeLiquidity currentTick lo hi before (subU128 before liquidity) = .ok active) :
    (active : ℤ) = before - if Covers currentTick lo hi then (liquidity : ℤ) else 0 := by
  change (if Covers currentTick lo hi then _ else _) = _ at h
  by_cases covers : Covers currentTick lo hi
  · rw [if_pos covers] at h ⊢
    obtain ⟨_, rfl⟩ := subU128_ok_iff.1 h
    omega
  · rw [if_neg covers] at h ⊢
    obtain rfl := pure_ok_iff.1 h
    omega

/-! ## Liquidity of positions -/

variable [DecidableEq Address]

/-- The total liquidity of the positions whose range satisfies `p`. -/
def liquidityWhere (p : ℤ → ℤ → Prop) [DecidableRel p] (positions : Positions Address) : ℕ :=
  Store.sumBy (fun key pos => if p key.2.1 key.2.2 then pos.liquidity else 0) positions

def liquidityAt (positions : Positions Address) (key : Address × ℤ × ℤ) : ℕ :=
  (positions.lookup key).elim 0 PositionInfo.liquidity

/-- The liquidity of positions on the range from `lo` to `hi` has changed by `delta`. -/
def Shifted (positions positions' : Positions Address) (lo hi delta : ℤ) : Prop :=
  ∀ (p : ℤ → ℤ → Prop) [DecidableRel p],
    (liquidityWhere p positions' : ℤ) = liquidityWhere p positions + if p lo hi then delta else 0

theorem share_liquidity (p : ℤ → ℤ → Prop) [DecidableRel p] (key : Address × ℤ × ℤ) :
    Store.share (fun key pos => if p key.2.1 key.2.2 then PositionInfo.liquidity pos else 0)
      positions key = if p key.2.1 key.2.2 then liquidityAt positions key else 0 := by
  unfold Store.share liquidityAt
  cases positions.lookup key <;> simp

theorem shifted_set (positions : Positions Address) (owner : Address) (lo hi : ℤ)
    (pos : PositionInfo) :
    Shifted positions (positions.set (owner, lo, hi) pos) lo hi
      (pos.liquidity - liquidityAt positions (owner, lo, hi)) := by
  intro p _
  have sum := Store.share_add_sumBy_set
    (fun key pos => if p key.2.1 key.2.2 then PositionInfo.liquidity pos else 0) positions
    (owner, lo, hi) pos
  rw [share_liquidity] at sum
  change _ + liquidityWhere p _ = _ + liquidityWhere p positions at sum
  split_ifs at sum ⊢ <;> omega

theorem shifted_remove :
    Shifted positions (positions.remove (owner, lo, hi)) lo hi
      (-liquidityAt positions (owner, lo, hi)) := by
  intro p _
  have sum := Store.sumBy_eq_share_add_remove
    (fun key pos => if p key.2.1 key.2.2 then PositionInfo.liquidity pos else 0) positions
    (owner, lo, hi)
  rw [share_liquidity] at sum
  change liquidityWhere p positions = _ + liquidityWhere p _ at sum
  split_ifs at sum ⊢ <;> omega

theorem liquidityWhere_mono {q : ℤ → ℤ → Prop} [DecidableRel p] [DecidableRel q]
    (h : ∀ lo hi, p lo hi → q lo hi) : liquidityWhere p positions ≤ liquidityWhere q positions := by
  refine Store.sumBy_mono fun _ _ _ => ?_
  split_ifs with hp hq
  · exact le_rfl
  · exact absurd (h _ _ hp) hq
  · exact Nat.zero_le _
  · exact le_rfl

theorem liquidityAt_le [DecidableRel p] (hp : p key.2.1 key.2.2) :
    liquidityAt positions key ≤ liquidityWhere p positions := by
  have share := Store.share_le_sumBy
    (fun key pos => if p key.2.1 key.2.2 then PositionInfo.liquidity pos else 0) positions key
    (fun _ _ _ => Nat.zero_le _)
  rwa [share_liquidity, if_pos hp] at share

theorem liquidityAt_of_lookup (h : positions.lookup key = some pos) :
    liquidityAt positions key = pos.liquidity := by
  rw [liquidityAt, h]
  rfl

theorem liquidity_eq_zero [DecidableRel p] (zero : liquidityWhere p positions = 0)
    (h : positions.lookup key = some pos) (hp : p key.2.1 key.2.2) : pos.liquidity = 0 := by
  rw [← liquidityAt_of_lookup h]
  exact Nat.le_zero.1 (zero ▸ liquidityAt_le hp)

/-! ## Crossing a tick -/

/-- All positions are on ranges, and the ends strictly between two ticks carry no liquidity. -/
structure Gap (positions : Positions Address) (a b : ℤ) : Prop where
  ordered : ∀ key pos, positions.lookup key = some pos → key.2.1 < key.2.2
  clear : ∀ key pos, positions.lookup key = some pos → ∀ t, EndsAt t key.2.1 key.2.2 →
    a < t → t < b → pos.liquidity = 0

/-- Below the gap under the current tick, the liquidity that ends at `next` is exchanged. -/
theorem cross_down (le : next ≤ tick) (gap : Gap positions next (tick + 1)) :
    liquidityWhere (Covers tick) positions + liquidityWhere (fun _ hi => hi = next) positions =
      liquidityWhere (Covers (next - 1)) positions +
        liquidityWhere (fun lo _ => lo = next) positions := by
  unfold liquidityWhere
  rw [← Store.sumBy_add, ← Store.sumBy_add]
  refine Store.sumBy_congr fun key pos h => ?_
  have lt := gap.ordered key pos h
  have lower := gap.clear key pos h key.2.1 (.inl rfl)
  have upper := gap.clear key pos h key.2.2 (.inr rfl)
  split_ifs <;> simp only [Covers] at * <;> omega

/-- Above the gap over the current tick, the liquidity that ends at `next` is exchanged. -/
theorem cross_up (lt : tick < next) (gap : Gap positions tick next) :
    liquidityWhere (Covers tick) positions + liquidityWhere (fun lo _ => lo = next) positions =
      liquidityWhere (Covers next) positions +
        liquidityWhere (fun _ hi => hi = next) positions := by
  unfold liquidityWhere
  rw [← Store.sumBy_add, ← Store.sumBy_add]
  refine Store.sumBy_congr fun key pos h => ?_
  have ordered := gap.ordered key pos h
  have lower := gap.clear key pos h key.2.1 (.inl rfl)
  have upper := gap.clear key pos h key.2.2 (.inr rfl)
  split_ifs <;> simp only [Covers] at * <;> omega

/-! ## Tick records and positions -/

/-- The tick records and the bitmap agree with the positions. -/
structure TickBooks (tickSpacing : ℤ) (positions : Positions Address) (ticks : Ticks)
    (bitmap : TickBitmap) : Prop where
  gross : ∀ t, (ticks.getD t emptyTick).liquidityGross = liquidityWhere (EndsAt t) positions
  net : ∀ t, (ticks.getD t emptyTick).liquidityNet =
    liquidityWhere (fun lo _ => lo = t) positions - liquidityWhere (fun _ hi => hi = t) positions
  bits : BitsMatch tickSpacing ticks bitmap

theorem liquidityWhere_ends_zero {t : ℤ} (zero : liquidityWhere (EndsAt t) positions = 0) :
    liquidityWhere (fun lo _ => lo = t) positions = 0 ∧
      liquidityWhere (fun _ hi => hi = t) positions = 0 :=
  ⟨Nat.le_zero.1 (zero ▸ liquidityWhere_mono fun _ _ => Or.inl),
    Nat.le_zero.1 (zero ▸ liquidityWhere_mono fun _ _ => Or.inr)⟩

theorem TickBooks.records (books : TickBooks pool.tickSpacing positions ticks bitmap)
    (shifted : Shifted positions positions' lo hi delta) (range : IsRange pool.tickSpacing lo hi)
    (fits : liquidityWhere (fun _ _ => True) positions' < 2 ^ 128)
    (h : updateRange pool ticks bitmap lo hi delta = .ok (ticks', bitmap')) :
    (∀ t, ticks'.getD t emptyTick =
      if t = lo ∨ t = hi then updatedTick (ticks.getD t emptyTick) t pool.currentTick delta
        pool.feeGrowthGlobal0 pool.feeGrowthGlobal1 (decide (t = hi))
        (liquidityWhere (EndsAt t) positions')
      else ticks.getD t emptyTick) ∧
    BitsMatch pool.tickSpacing ticks' bitmap' := by
  have shift : ∀ t, EndsAt t lo hi → (liquidityWhere (EndsAt t) positions' : ℤ) =
      (ticks.getD t emptyTick).liquidityGross + delta := by
    intro t ends
    have sum := shifted (EndsAt t)
    rw [if_pos ends] at sum
    rw [books.gross, sum]
  have bound : ∀ t, liquidityWhere (EndsAt t) positions' < 2 ^ 128 := fun t =>
    (liquidityWhere_mono fun _ _ _ => trivial).trans_lt fits
  have ne := range.lt.ne
  unfold updateRange at h
  simp only [ok_iff] at h
  obtain ⟨⟨_, ticks₁⟩, first, ⟨_, _⟩, second, _, flipLower, _, flipUpper, rfl, rfl⟩ := h
  obtain ⟨_, sumLower, -, -, lower⟩ := updateTick_ok first
  obtain ⟨_, sumUpper, -, -, upper⟩ := updateTick_ok second
  have unchanged : ticks₁.getD hi emptyTick = ticks.getD hi emptyTick := by
    rw [lower, if_neg ne.symm]
  obtain rfl := saturatingAddSigned_ok sumLower (shift lo (.inl rfl)) (bound lo)
  obtain rfl :=
    saturatingAddSigned_ok sumUpper (unchanged ▸ shift hi (.inr rfl)) (bound hi)
  refine ⟨fun t => ?_,
    (books.bits.update range.lower first flipLower).update range.upper second flipUpper⟩
  rw [upper, unchanged, lower t]
  by_cases atLower : t = lo
  · subst atLower
    rw [if_neg ne, if_pos rfl, if_pos (.inl rfl), decide_eq_false ne]
  by_cases atUpper : t = hi
  · subst atUpper
    rw [if_pos rfl, if_pos (.inr rfl), decide_eq_true rfl]
  · rw [if_neg atUpper, if_neg atLower, if_neg (not_or.2 ⟨atLower, atUpper⟩)]

theorem TickBooks.update (books : TickBooks pool.tickSpacing positions ticks bitmap)
    (shifted : Shifted positions positions' lo hi delta) (range : IsRange pool.tickSpacing lo hi)
    (fits : liquidityWhere (fun _ _ => True) positions' < 2 ^ 128)
    (h : updateRange pool ticks bitmap lo hi delta = .ok (ticks', bitmap')) :
    TickBooks pool.tickSpacing positions' ticks' bitmap' := by
  obtain ⟨record, bits⟩ := books.records shifted range fits h
  refine ⟨fun t => ?_, fun t => ?_, bits⟩
  · rw [record]
    by_cases ends : t = lo ∨ t = hi
    · rw [if_pos ends, updatedTick_gross]
    · have away : ¬ EndsAt t lo hi := fun at_end => ends (at_end.imp Eq.symm Eq.symm)
      have same := shifted (EndsAt t)
      rw [if_neg away, add_zero, Nat.cast_inj] at same
      rw [if_neg ends, books.gross, same]
  · have before := books.net t
    have lowerShift := shifted fun lo _ => lo = t
    have upperShift := shifted fun _ hi => hi = t
    have zero : liquidityWhere (EndsAt t) positions' = 0 → _ := liquidityWhere_ends_zero
    have lt := range.lt
    rw [record]
    by_cases ends : t = lo ∨ t = hi
    · rw [if_pos ends, updatedTick_net]
      by_cases empty : liquidityWhere (EndsAt t) positions' = 0
      · rw [if_pos empty, (zero empty).1, (zero empty).2, sub_self]
      · split_ifs at lowerShift upperShift ⊢ <;> simp_all <;> omega
    · obtain ⟨notLower, notUpper⟩ := not_or.1 ends
      rw [if_neg ends]
      omega

/-! ## The swap loop -/

theorem getD_of_lookup (record : ticks.lookup next = some info) :
    ticks.getD next emptyTick = info := by
  rw [Store.getD, record, Option.getD_some]

omit [DecidableEq Address] in
theorem TickBooks.cross (books : TickBooks tickSpacing positions ticks bitmap)
    (record : ticks.lookup next = some info) :
    TickBooks tickSpacing positions (ticks.set next (crossedTick info fg0 fg1)) bitmap := by
  have same : ∀ t,
      ((ticks.set next (crossedTick info fg0 fg1)).getD t emptyTick).liquidityGross =
        (ticks.getD t emptyTick).liquidityGross ∧
      ((ticks.set next (crossedTick info fg0 fg1)).getD t emptyTick).liquidityNet =
        (ticks.getD t emptyTick).liquidityNet := by
    intro t
    rw [Store.getD_set]
    by_cases atNext : t = next
    · rw [if_pos atNext, atNext, getD_of_lookup record]
      unfold crossedTick
      exact ⟨rfl, rfl⟩
    · rw [if_neg atNext]
      exact ⟨rfl, rfl⟩
  refine ⟨fun t => ?_, fun t => ?_, fun t ht => ?_⟩
  · rw [(same t).1, books.gross]
  · rw [(same t).2, books.net]
  · rw [(same t).1]
    exact books.bits t ht

/-- All positions are on ranges that `mint` accepts. -/
def Ranged (tickSpacing : ℤ) (positions : Positions Address) : Prop :=
  ∀ key pos, positions.lookup key = some pos → IsRange tickSpacing key.2.1 key.2.2

theorem gap_of_clear {a b : ℤ} (ranged : Ranged tickSpacing positions)
    (books : TickBooks tickSpacing positions ticks bitmap)
    (clear : ∀ t, tickSpacing ∣ t → a < t → t < b → tickBit bitmap tickSpacing t = false) :
    Gap positions a b where
  ordered key pos h := (ranged key pos h).lt
  clear key pos h t ends above below := by
    have range := ranged key pos h
    have dvd : tickSpacing ∣ t := by
      rcases ends with rfl | rfl
      · exact range.lower
      · exact range.upper
    have zero : ¬ 0 < (ticks.getD t emptyTick).liquidityGross := by
      rw [← books.bits t dvd, clear t dvd above below]
      exact Bool.false_ne_true
    rw [books.gross, Nat.pos_iff_ne_zero, not_not] at zero
    exact liquidity_eq_zero zero h ends

structure LoopBooks (positions : Positions Address) (cfg : SwapConfig) (s : SwapState) : Prop where
  ticks : TickBooks cfg.tickSpacing positions s.ticks cfg.tickBitmap
  active : s.liquidity = liquidityWhere (Covers s.tick) positions

/-- No liquidity ends between the current tick and the tick found. -/
theorem LoopBooks.gap (books : LoopBooks positions cfg s)
    (ranged : Ranged cfg.tickSpacing positions) (spacing : 0 ≤ cfg.tickSpacing)
    (found : search cfg s = .ok (next, true)) :
    if cfg.zeroForOne then next ≤ s.tick ∧ Gap positions next (s.tick + 1)
    else s.tick < next ∧ Gap positions s.tick next := by
  have side := (search_found spacing found).2.2
  split_ifs at side ⊢ <;> exact ⟨side.1, gap_of_clear ranged books.ticks side.2⟩

theorem LoopBooks.crossed (books : LoopBooks positions cfg s)
    (ranged : Ranged cfg.tickSpacing positions) (spacing : 0 ≤ cfg.tickSpacing)
    (fits : liquidityWhere (fun _ _ => True) positions < 2 ^ 128)
    (found : search cfg s = .ok (next, true)) (record : s.ticks.lookup next = some info)
    (net : crossedLiquidity cfg.zeroForOne s.liquidity info.liquidityNet = .ok liquidity) :
    liquidity = liquidityWhere (Covers (tickBeyond cfg.zeroForOne next)) positions := by
  have bound : liquidityWhere (Covers (tickBeyond cfg.zeroForOne next)) positions < 2 ^ 128 :=
    (liquidityWhere_mono fun _ _ _ => trivial).trans_lt fits
  have gap := books.gap ranged spacing found
  obtain ⟨_, hd, net⟩ := bind_ok_iff.1 net
  obtain rfl := netDelta_ok hd
  refine saturatingAddSigned_ok net ?_ bound
  have hn := books.ticks.net next
  rw [getD_of_lookup record] at hn
  rw [books.active]
  unfold tickBeyond
  split_ifs at gap ⊢
  · have exchange := cross_down gap.1 gap.2
    omega
  · have exchange := cross_up gap.1 gap.2
    omega

omit [DecidableEq Address] in
theorem LoopBooks.record (books : LoopBooks positions cfg s) (spacing : 0 ≤ cfg.tickSpacing)
    (found : search cfg s = .ok (next, true)) : ∃ info, s.ticks.lookup next = some info := by
  obtain ⟨dvd, set, -⟩ := search_found spacing found
  have gross := (books.ticks.bits next dvd).1 set
  unfold Store.getD at gross
  cases h : s.ticks.lookup next with
  | none =>
    rw [h] at gross
    exact absurd gross (lt_irrefl 0)
  | some info => exact ⟨info, rfl⟩

theorem LoopBooks.move (ranged : Ranged cfg.tickSpacing positions)
    (spacing : 0 ≤ cfg.tickSpacing) (fits : liquidityWhere (fun _ _ => True) positions < 2 ^ 128)
    (books : LoopBooks positions cfg s) (move : Move cfg s s') : LoopBooks positions cfg s' := by
  cases move with
  | jump _ _ found _ _ crossed _ result =>
    obtain ⟨_, record⟩ := books.record spacing found
    unfold crossIfPresent at crossed
    rw [record] at crossed
    obtain ⟨_, net, crossed⟩ := bind_ok_iff.1 crossed
    obtain ⟨rfl, rfl⟩ := Prod.mk.inj (pure_ok_iff.1 crossed)
    subst result
    exact ⟨books.ticks.cross record, books.crossed ranged spacing fits found record net⟩
  | cross _ _ found _ _ _ _ _ _ _ _ _ _ _ _ record _ net result =>
    subst result
    exact ⟨books.ticks.cross record, books.crossed ranged spacing fits found record net⟩
  | within _ _ _ _ _ _ _ _ _ _ _ _ mid settled result =>
    subst result
    refine ⟨?_, ?_⟩
    · rw [settled.ticks]
      exact books.ticks
    · rw [settled.liquidity, settled.tick]
      exact books.active

/-! ## Changes of a position -/

theorem getD_liquidity (key : Address × ℤ × ℤ) (i0 i1 : ℕ) :
    (positions.getD key ⟨0, i0, i1, 0, 0⟩).liquidity = liquidityAt positions key := by
  unfold Store.getD liquidityAt
  cases positions.lookup key <;> rfl

/-- A position is deleted where it is left without liquidity, and stored otherwise. -/
theorem shifted_stored (owner : Address) (lo hi : ℤ) (pos : PositionInfo) {c : Prop} [Decidable c]
    (empty : c → pos.liquidity = 0) :
    Shifted positions (if c then positions.remove (owner, lo, hi)
      else positions.set (owner, lo, hi) pos) lo hi
      (pos.liquidity - liquidityAt positions (owner, lo, hi)) := by
  split_ifs with none
  · rw [empty none, Nat.cast_zero, zero_sub]
    exact shifted_remove
  · exact shifted_set _ _ _ _ _

theorem Ranged.set (ranged : Ranged tickSpacing positions) (range : IsRange tickSpacing lo hi)
    (pos : PositionInfo) : Ranged tickSpacing (positions.set (owner, lo, hi) pos) :=
  Store.forall_set ranged range

theorem Ranged.stored {c : Prop} [Decidable c] (ranged : Ranged tickSpacing positions)
    (range : IsRange tickSpacing lo hi) (pos : PositionInfo) :
    Ranged tickSpacing (if c then positions.remove (owner, lo, hi)
      else positions.set (owner, lo, hi) pos) := by
  split_ifs
  · intro key info h
    rw [Store.lookup_remove] at h
    split_ifs at h
    exact ranged key info h
  · exact ranged.set range pos

end Positions

/-! ## Runs -/

section Contract

variable {Address : Type} [DecidableEq Address] {amm : Address} {w w' : World Address}
  {pool : Pool Address} {minted : ℕ} {minted' x y liquidity a b : ℕ} {env : Env amm} {lo hi : ℤ}
  {owner : Address}

/-- The books of the pool agree with its positions, whose liquidity was minted. -/
structure Books (pool : Pool Address) (w : World Address) (minted : ℕ) : Prop where
  ranged : Ranged pool.tickSpacing w.positions
  spacing : 0 ≤ pool.tickSpacing
  ticks : TickBooks pool.tickSpacing w.positions w.ticks w.tickBitmap
  active : pool.liquidity = liquidityWhere (Covers pool.currentTick) w.positions
  total : liquidityWhere (fun _ _ => True) w.positions ≤ minted

def mintedBy (w : World Address) : Action amm → ℕ
  | .call env (.mint owner lo hi x y) =>
    match mint env owner lo hi x y w with
    | .ok ((liquidity, _), _) => liquidity
    | .error _ => 0
  | _ => 0

structure Counted (Address : Type) where
  world : World Address
  minted : ℕ

def CountedStep (amm : Address) (c : Counted Address) (action : Action amm)
    (c' : Counted Address) : Prop :=
  Step amm c.world action c'.world ∧ c'.minted = c.minted + mintedBy c.world action

theorem Books.change {positions : Positions Address} {ticks : Ticks} {tickBitmap : TickBitmap}
    {tokens : Tokens Address} {delta : ℤ} {active : ℕ} (books : Books pool w minted)
    (range : IsRange pool.tickSpacing lo hi) (ranged : Ranged pool.tickSpacing positions)
    (shifted : Shifted w.positions positions lo hi delta)
    (update : updateRange pool w.ticks w.tickBitmap lo hi delta = .ok (ticks, tickBitmap))
    (hactive : (active : ℤ) = pool.liquidity + if Covers pool.currentTick lo hi then delta else 0)
    (total : (liquidityWhere (fun _ _ => True) w.positions + delta : ℤ) ≤ minted')
    (fits : minted' < 2 ^ 127) :
    Books { pool with liquidity := active }
      { w with
        pool := some { pool with liquidity := active }, ticks, tickBitmap, positions, tokens }
      minted' := by
  have sum := shifted fun _ _ => True
  rw [if_pos trivial] at sum
  have covered := shifted (Covers pool.currentTick)
  rw [← books.active] at covered
  have fits' : liquidityWhere (fun _ _ => True) positions < 2 ^ 128 := by omega
  have updated := books.ticks.update shifted range fits' update
  have active_eq : active = liquidityWhere (Covers pool.currentTick) positions := by omega
  have total_le : liquidityWhere (fun _ _ => True) positions ≤ minted' := by omega
  exact ⟨ranged, books.spacing, updated, active_eq, total_le⟩

theorem mint_shifts (hp : w.pool = some pool) (bound : liquidity < 2 ^ 127)
    (h : ConcentratedAmm.mint env owner lo hi x y w = .ok ((liquidity, a, b), w')) :
    Shifted w.positions w'.positions lo hi liquidity ∧
      updateRange pool w.ticks w.tickBitmap lo hi liquidity = .ok (w'.ticks, w'.tickBitmap) := by
  obtain ⟨_, _, _, pos, _, -, -, -, -, -, update, accrued, -, -, rfl⟩ := mint_ok hp h
  have before := accrue_liquidity accrued
  rw [getD_liquidity] at before
  rw [asI128_of_lt bound] at update
  have shifted := shifted_set w.positions owner lo hi
    { pos with liquidity := pos.liquidity + liquidity }
  have change : ((pos.liquidity + liquidity : ℕ) : ℤ) - liquidityAt w.positions (owner, lo, hi) =
      liquidity := by omega
  rw [change] at shifted
  exact ⟨shifted, update⟩

theorem Books.mint (books : Books pool w minted) (hp : w.pool = some pool)
    (bound : minted + liquidity < 2 ^ 127)
    (h : ConcentratedAmm.mint env owner lo hi x y w = .ok ((liquidity, a, b), w')) :
    ∃ pool', w'.pool = some pool' ∧ Books pool' w' (minted + liquidity) := by
  obtain ⟨shifted, update⟩ := mint_shifts hp (by omega) h
  obtain ⟨_, _, _, _, _, -, range, -, -, -, -, -, -, hactive, rfl⟩ := mint_ok hp h
  have covered := activeLiquidity_mint hactive
  have total := books.total
  refine ⟨_, rfl, books.change range (books.ranged.set range _) shifted update ?_ (by omega)
    bound⟩
  rw [covered]
  split_ifs <;> simp

theorem Books.burn_shifts (books : Books pool w minted) (hp : w.pool = some pool)
    (bound : minted < 2 ^ 127)
    (h : ConcentratedAmm.burn env owner lo hi liquidity w = .ok ((a, b), w')) :
    Shifted w.positions w'.positions lo hi (-liquidity) ∧
      updateRange pool w.ticks w.tickBitmap lo hi (-liquidity) = .ok (w'.ticks, w'.tickBitmap) := by
  obtain ⟨_, pos, _, _, _, _, -, hb, enough, -, -, -, accrued, -, update, -, -, rfl⟩ := burn_ok hp h
  have total := books.total
  have held : liquidity ≤ liquidityWhere (fun _ _ => True) w.positions := by
    rw [← liquidityAt_of_lookup hb] at enough
    exact enough.trans (liquidityAt_le trivial)
  rw [asI128_of_lt (by omega)] at update
  have change : ((pos.liquidity - liquidity : ℕ) : ℤ) - liquidityAt w.positions (owner, lo, hi) =
      -liquidity := by
    have same := accrue_liquidity accrued
    rw [liquidityAt_of_lookup hb]
    omega
  refine ⟨?_, update⟩
  rw [← change]
  exact shifted_stored _ _ _ _ And.left

theorem Books.burn (books : Books pool w minted) (hp : w.pool = some pool)
    (bound : minted < 2 ^ 127)
    (h : ConcentratedAmm.burn env owner lo hi liquidity w = .ok ((a, b), w')) :
    ∃ pool', w'.pool = some pool' ∧ Books pool' w' minted := by
  obtain ⟨shifted, update⟩ := books.burn_shifts hp bound h
  obtain ⟨_, _, _, _, _, _, -, hb, -, -, -, -, -, -, -, hactive, -, rfl⟩ := burn_ok hp h
  have total := books.total
  have range := books.ranged _ _ hb
  have covered := activeLiquidity_burn hactive
  refine ⟨_, rfl, books.change range (books.ranged.stored range _) shifted update ?_ (by omega)
    bound⟩
  rw [covered]
  split_ifs <;> ring

theorem Books.collectFees (books : Books pool w minted) (hp : w.pool = some pool)
    (h : ConcentratedAmm.collectFees env owner lo hi w = .ok ((a, b), w')) :
    w'.pool = some pool ∧ Books pool w' minted := by
  obtain ⟨_, pos, _, -, hb, accrued, -, -, -, rfl⟩ := collectFees_ok hp h
  have none : (pos.liquidity : ℤ) - liquidityAt w.positions (owner, lo, hi) = 0 := by
    rw [liquidityAt_of_lookup hb, accrue_liquidity accrued, sub_self]
  have shifted : Shifted w.positions (collectedPositions w.positions owner lo hi pos) lo hi 0 := by
    rw [← none]
    exact shifted_stored _ _ _ _ id
  have same : ∀ (q : ℤ → ℤ → Prop) [DecidableRel q],
      liquidityWhere q (collectedPositions w.positions owner lo hi pos) =
        liquidityWhere q w.positions := by
    intro q _
    have sum := shifted q
    omega
  refine ⟨hp, books.ranged.stored (books.ranged _ _ hb) _, books.spacing,
    ⟨fun t => ?_, fun t => ?_, books.ticks.bits⟩, ?_, ?_⟩
  · exact (books.ticks.gross t).trans (same _).symm
  · refine (books.ticks.net t).trans ?_
    rw [same, same]
  · exact books.active.trans (same _).symm
  · exact (same _).trans_le books.total

theorem Books.swap {trader : Address} {zeroForOne : Bool} {amountSpecified budget : ℕ}
    (books : Books pool w minted) (hp : w.pool = some pool) (bound : minted < 2 ^ 127)
    (h : ConcentratedAmm.swap env trader zeroForOne amountSpecified budget w = .ok ((a, b), w')) :
    ∃ pool', w'.pool = some pool' ∧ Books pool' w' minted := by
  obtain ⟨s, _, _, -, loop, -, -, -, -, rfl⟩ := swap_ok hp h
  have total := books.total
  have fits : liquidityWhere (fun _ _ => True) w.positions < 2 ^ 128 := by omega
  have start : LoopBooks w.positions (swapConfig pool w zeroForOne)
      (swapStart pool w amountSpecified) := ⟨books.ticks, books.active⟩
  have after := swapLoop_keeps
    (fun s _ loopBooks move => loopBooks.move books.ranged books.spacing fits move) start loop
  exact ⟨_, rfl, books.ranged, books.spacing, after.ticks, after.active, books.total⟩

theorem Books.step {action : Action amm} (books : Books pool w minted) (hp : w.pool = some pool)
    (count : minted' = minted + mintedBy w action) (bound : minted' < 2 ^ 127)
    (step : Step amm w action w') : ∃ pool', w'.pool = some pool' ∧ Books pool' w' minted' := by
  cases action with
  | external =>
    obtain ⟨-, rfl⟩ := step
    obtain rfl : minted' = minted := count
    exact ⟨pool, hp, books.ranged, books.spacing, books.ticks, books.active, books.total⟩
  | call _ c =>
    obtain ⟨-, step⟩ := step
    cases c with
    | mint =>
      obtain ⟨⟨liquidity, a, b⟩, h⟩ := map_snd_ok_iff.1 step
      obtain rfl : minted' = minted + liquidity := by
        rw [count, mintedBy, h]
      exact books.mint hp bound h
    | burn =>
      obtain ⟨⟨a, b⟩, h⟩ := map_snd_ok_iff.1 step
      obtain rfl : minted' = minted := count
      exact books.burn hp bound h
    | collectFees =>
      obtain ⟨⟨a, b⟩, h⟩ := map_snd_ok_iff.1 step
      obtain rfl : minted' = minted := count
      exact ⟨pool, books.collectFees hp h⟩
    | swap =>
      obtain ⟨⟨a, b⟩, h⟩ := map_snd_ok_iff.1 step
      obtain rfl : minted' = minted := count
      exact books.swap hp bound h

def CountedInitial (amm : Address) (c : Counted Address) : Prop :=
  Initial amm c.world ∧ c.minted = 0

theorem books_initial (init : Initial amm w) (hp : w.pool = some pool)
    (spacing : 0 ≤ pool.tickSpacing) : Books pool w 0 := by
  obtain ⟨_, _, _, _, _, _, _, -, -, -, -, -, h⟩ := init
  obtain rfl := pure_ok_iff.1 h
  obtain rfl := Option.some.inj hp
  refine ⟨fun _ _ h => ?_, spacing, ⟨fun t => rfl, fun t => rfl, fun t _ => ?_⟩, rfl, le_rfl⟩
  · cases h
  · refine iff_of_false ?_ (lt_irrefl 0)
    simp [tickBit, BitScan.bit, Store.getD]

variable {c : Counted Address}

theorem books_of_reachable (reach : Reachable
      (fun c => CountedInitial amm c ∧ ∀ pool ∈ c.world.pool, 0 ≤ pool.tickSpacing)
      (CountedStep amm) c) (bound : c.minted < 2 ^ 127) :
    ∃ pool, c.world.pool = some pool ∧ Books pool c.world c.minted := by
  refine reach.invariant (P := fun c => c.minted < 2 ^ 127 →
    ∃ pool, c.world.pool = some pool ∧ Books pool c.world c.minted) ?_ ?_ bound
  · rintro _ ⟨⟨init, zero⟩, spacing⟩ -
    obtain ⟨pool, hp⟩ := initial_pool init
    rw [zero]
    exact ⟨pool, hp, books_initial init hp (spacing pool hp)⟩
  · intro _ _ _ books step bound
    obtain ⟨pool, hp, books⟩ := books (by have := step.2; omega)
    exact books.step hp step.2 bound step.1

theorem Books.bit_iff (books : Books pool w minted) (t : ℤ) :
    pool.tickSpacing ∣ t ∧ tickBit w.tickBitmap pool.tickSpacing t = true ↔
      0 < (w.ticks.getD t emptyTick).liquidityGross := by
  constructor
  · rintro ⟨dvd, set⟩
    exact (books.ticks.bits t dvd).1 set
  · intro positive
    have dvd : pool.tickSpacing ∣ t := by
      by_contra notDvd
      rw [books.ticks.gross] at positive
      refine positive.ne' ?_
      have zero : liquidityWhere (EndsAt t) w.positions = liquidityWhere (fun _ _ => False)
          w.positions := by
        refine Store.sumBy_congr fun key pos h => ?_
        have range := books.ranged key pos h
        rw [if_neg, if_neg not_false]
        rintro (rfl | rfl)
        · exact notDvd range.lower
        · exact notDvd range.upper
      rw [zero]
      simp [liquidityWhere, Store.sumBy]
    exact ⟨dvd, (books.ticks.bits t dvd).2 positive⟩

/-- In a pool with a non-negative tick spacing, as long as less than `2 ^ 127` was minted in total,
the tick records, the bitmap and the active liquidity agree with the positions. -/
theorem books_agree_of_spacing_nonneg {c : Counted Address}
    (reach : Reachable
      (fun c => CountedInitial amm c ∧ ∀ pool ∈ c.world.pool, 0 ≤ pool.tickSpacing)
      (CountedStep amm) c) (bound : c.minted < 2 ^ 127) :
    ∃ pool, c.world.pool = some pool ∧
      (∀ t, (c.world.ticks.getD t emptyTick).liquidityGross =
        liquidityWhere (fun lo hi => lo = t ∨ hi = t) c.world.positions) ∧
      (∀ t, (c.world.ticks.getD t emptyTick).liquidityNet =
        liquidityWhere (fun lo _ => lo = t) c.world.positions -
          liquidityWhere (fun _ hi => hi = t) c.world.positions) ∧
      (∀ t, pool.tickSpacing ∣ t ∧ tickBit c.world.tickBitmap pool.tickSpacing t = true ↔
        0 < (c.world.ticks.getD t emptyTick).liquidityGross) ∧
      pool.liquidity = liquidityWhere
        (fun lo hi => lo ≤ pool.currentTick ∧ pool.currentTick < hi) c.world.positions := by
  obtain ⟨pool, hp, books⟩ := books_of_reachable reach bound
  exact ⟨pool, hp, books.ticks.gross, books.ticks.net, books.bit_iff, books.active⟩

def countedExec (env : Env amm) (c : Counted Address) (call : Call Address) :
    Outcome Error (Counted Address) := do
  let w ← exec env c.world call
  pure ⟨w, c.minted + mintedBy c.world (.call env call)⟩

theorem countedExec_step {c' : Counted Address} {call : Call Address} (typed : call.Typed)
    (h : countedExec env c call = .ok c') : CountedStep amm c (.call env call) c' := by
  obtain ⟨w, hw, h⟩ := bind_ok_iff.1 h
  obtain rfl := pure_ok_iff.1 h
  exact ⟨step_call typed hw, rfl⟩

end Contract

/-! ## Pools of both signs -/

def spacedPool (tickSpacing : ℤ) : Outcome Error (Counted ℕ) := do
  let w ← initializePool 8 9 0 tickSpacing q64 0 { tokens := plenty }
  let c ← countedExec signed ⟨w, 0⟩ (.mint 1 (-10) 10 1000000 1000000)
  countedExec signed c (.mint 1 100 110 1000000 1000000)

theorem spacedPool_reachable {tickSpacing : ℤ} {c : Counted ℕ} (range : IsI32 tickSpacing)
    {P : Counted ℕ → Prop}
    (start : ∀ w, initializePool 8 9 0 tickSpacing q64 0 { tokens := plenty } = .ok w → P ⟨w, 0⟩)
    (h : spacedPool tickSpacing = .ok c) :
    Reachable (fun c => CountedInitial 0 c ∧ P c) (CountedStep 0) c := by
  obtain ⟨w, hw, h⟩ := bind_ok_iff.1 h
  obtain ⟨_, h₁, h₂⟩ := bind_ok_iff.1 h
  have init : Initial 0 w := ⟨8, 9, 0, tickSpacing, q64, 0, plenty, plenty_nonneg, by decide, range,
    by decide, by decide, hw⟩
  exact ((Reachable.start ⟨⟨init, rfl⟩, start w hw⟩).next (countedExec_step (by decide) h₁)).next
    (countedExec_step (by decide) h₂)

/-- With spacing 1 the books agree after a swap that crosses tick 10. -/
theorem spacedPool_books :
    ∃ (c c' : Counted ℕ) (pool : Pool ℕ), spacedPool 1 = .ok c ∧
      countedExec signed c (.swap 2 false 1500000 5) = .ok c' ∧ c'.world.pool = some pool ∧
      pool.currentTick = 10 ∧
      pool.liquidity = liquidityWhere
        (fun lo hi => lo ≤ pool.currentTick ∧ pool.currentTick < hi) c'.world.positions := by
  obtain ⟨c, hc, c', hc', bound, tick⟩ : ∃ c, spacedPool 1 = .ok c ∧
      ∃ c', countedExec signed c (.swap 2 false 1500000 5) = .ok c' ∧ c'.minted < 2 ^ 127 ∧
        ∀ pool ∈ c'.world.pool, pool.currentTick = 10 := by
    decide +kernel
  have before := spacedPool_reachable
    (P := fun c => ∀ pool ∈ c.world.pool, 0 ≤ pool.tickSpacing) (by decide) (fun w hw => by
      obtain rfl := pure_ok_iff.1 hw
      rintro pool ⟨⟩
      decide) hc
  obtain ⟨pool, hp, -, -, -, active⟩ := books_agree_of_spacing_nonneg
    (before.next (countedExec_step (by decide) hc')) bound
  exact ⟨c, c', pool, hc, hc', hp, tick pool hp, active⟩

/-- With spacing -1 a swap upward crosses tick -10, at the lower end of the position it is in, and
counts that position twice. -/
theorem negative_spacing_counts_twice :
    ∃ c : Counted ℕ, Reachable (CountedInitial 0) (CountedStep 0) c ∧ c.minted < 2 ^ 127 ∧
      ∃ pool, c.world.pool = some pool ∧
        pool.liquidity ≠ liquidityWhere
          (fun lo hi => lo ≤ pool.currentTick ∧ pool.currentTick < hi) c.world.positions := by
  obtain ⟨c, hc, c', hc', bound, wrong⟩ : ∃ c, spacedPool (-1) = .ok c ∧
      ∃ c', countedExec signed c (.swap 2 false 1000000 5) = .ok c' ∧ c'.minted < 2 ^ 127 ∧
        ∃ pool ∈ c'.world.pool, pool.liquidity ≠ liquidityWhere
          (fun lo hi => lo ≤ pool.currentTick ∧ pool.currentTick < hi) c'.world.positions := by
    decide +kernel
  have before := spacedPool_reachable (P := fun _ => True) (by decide) (fun _ _ => trivial) hc
  obtain ⟨c₀, ls, init, run⟩ := before.next (countedExec_step (by decide) hc')
  exact ⟨c', ⟨c₀, ls, init.1, run⟩, bound, wrong⟩

end ConcentratedAmm
