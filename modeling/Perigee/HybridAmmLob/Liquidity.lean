import Perigee.HybridAmmLob.OrderBook
import Perigee.Soroban.Ledger

/-!
# The value of LP shares

With an LP fee of at most 10000 basis points no call lowers `reserveA * reserveB / totalShares ^ 2`.
`initializePool` accepts any larger fee; the factor `10000 - lpFeeBps` of the pool's quote is then
negative, and the pool gives its reserves away.
-/

namespace HybridAmmLob

open Soroban Rounding

/-! ## The square root -/

theorem sqrtLoop_spec {x : ℤ} (fits : IsI128 (x + 1)) (fuel : ℕ) {y : ℤ} (pos : 0 < y)
    (le : y ≤ x) (above : x < (y + 1) * (y + 1)) (enough : y < fuel) :
    ∃ r, sqrtLoop x fuel y ((x.tdiv y + y).tdiv 2) = .ok r ∧
      0 < r ∧ r * r ≤ x ∧ x < (r + 1) * (r + 1) := by
  induction fuel generalizing y with
  | zero => omega
  | succ _ ih =>
    have nonneg : 0 ≤ x := by omega
    have quotient : 1 ≤ x.tdiv y := by
      have := lt_tdiv_add_one_mul nonneg pos
      by_contra small
      nlinarith
    by_cases smaller : (x.tdiv y + y).tdiv 2 < y
    · have above' := newton_lt_succ_sq nonneg pos
      have pos' : 0 < (x.tdiv y + y).tdiv 2 := by
        have := lt_tdiv_add_one_mul (n := x.tdiv y + y) (d := 2) (by omega) (by decide)
        omega
      generalize (x.tdiv y + y).tdiv 2 = z at smaller above' pos' ⊢
      have sum := newton_sum_le pos' (smaller.le.trans le)
      have part := tdiv_nonneg nonneg pos'
      have half := tdiv_mul_le (n := x.tdiv z + z) (d := 2) (by omega) (by decide)
      have half' := tdiv_nonneg (n := x.tdiv z + z) (d := 2) (by omega) (by decide)
      obtain ⟨r, returned, facts⟩ := ih pos' (smaller.le.trans le) above' (by omega)
      unfold IsI128 at fits
      refine ⟨r, ?_, facts⟩
      rw [sqrtLoop, if_pos smaller]
      refine bind_ok_iff.2 ⟨x.tdiv z, divI128_ok_iff.2 ⟨pos'.ne', ⟨by omega, by omega⟩, rfl⟩, ?_⟩
      refine bind_ok_iff.2 ⟨x.tdiv z + z, i128_ok_iff.2 ⟨⟨by omega, by omega⟩, rfl⟩, ?_⟩
      exact bind_ok_iff.2 ⟨(x.tdiv z + z).tdiv 2,
        divI128_ok_iff.2 ⟨by decide, ⟨by omega, by omega⟩, rfl⟩, returned⟩
    · refine ⟨y, ?_, pos, sq_le_of_newton_ge nonneg pos (not_lt.1 smaller), above⟩
      rw [sqrtLoop, if_neg smaller]
      rfl

/-- `sqrt` returns the root rounded down of every positive number below the largest `i128`. -/
theorem sqrt_spec {x : ℤ} (pos : 0 < x) (fits : IsI128 (x + 1)) :
    ∃ r, sqrt x = .ok r ∧ 0 < r ∧ r * r ≤ x ∧ x < (r + 1) * (r + 1) := by
  have above : x < (x + 1) * (x + 1) := by nlinarith
  obtain ⟨r, returned, facts⟩ :=
    sqrtLoop_spec fits (x.toNat + 1) pos le_rfl above (by omega)
  rw [Int.tdiv_self pos.ne', add_comm 1 x] at returned
  have half := tdiv_mul_le (n := x + 1) (d := 2) (by omega) (by decide)
  have half' := tdiv_nonneg (n := x + 1) (d := 2) (by omega) (by decide)
  refine ⟨r, ?_, facts⟩
  rw [sqrt, if_neg pos.ne']
  refine bind_ok_iff.2 ⟨x + 1, i128_ok_iff.2 ⟨fits, rfl⟩, ?_⟩
  unfold IsI128 at fits
  exact bind_ok_iff.2 ⟨(x + 1).tdiv 2,
    divI128_ok_iff.2 ⟨by decide, ⟨by omega, by omega⟩, rfl⟩, returned⟩

theorem sqrt_pos {x r : ℤ} (pos : 0 < x) (h : sqrt x = .ok r) : 0 < r := by
  have fits : IsI128 (x + 1) := by
    rw [sqrt, if_neg pos.ne'] at h
    obtain ⟨_, next, -⟩ := bind_ok_iff.1 h
    exact (i128_ok_iff.1 next).1
  obtain ⟨_, returned, facts⟩ := sqrt_spec pos fits
  rw [returned] at h
  cases h
  exact facts.1

/-! ## Pricing -/

theorem ammQuote_bounds {lpFeeBps reserveIn reserveOut remainingOut ammIn : ℤ}
    (fee : lpFeeBps ≤ 10000) (fee_nonneg : 0 ≤ lpFeeBps) (nonneg : 0 ≤ reserveIn)
    (pos : 0 < remainingOut) (h : ammQuote lpFeeBps reserveIn reserveOut remainingOut = .ok ammIn) :
    remainingOut < reserveOut ∧ 0 < ammIn ∧
      reserveIn * remainingOut < ammIn * (reserveOut - remainingOut) := by
  simp only [ammQuote, ok_iff] at h
  obtain ⟨_, _, scale, ⟨-, _⟩, _, ⟨-, rfl⟩, _, ⟨-, rfl⟩, left, ⟨-, hleft⟩, _, ⟨-, rfl⟩,
    quotient, ⟨nonzero, -, hquotient⟩, -, rfl⟩ := h
  have leftPos : 0 < left := by omega
  have scalePos : 0 < scale := by
    have : scale ≠ 0 := right_ne_zero_of_mul nonzero
    omega
  have product : 0 ≤ reserveIn * remainingOut := mul_nonneg nonneg pos.le
  have numerator : 0 ≤ reserveIn * remainingOut * 10000 := by omega
  have upper := lt_tdiv_add_one_mul numerator (mul_pos leftPos scalePos)
  have quotientNonneg := tdiv_nonneg numerator (mul_pos leftPos scalePos)
  rw [hquotient] at upper quotientNonneg
  refine ⟨by omega, by omega, ?_⟩
  rw [hleft]
  refine lt_of_mul_lt_mul_right ?_ scalePos.le
  calc reserveIn * remainingOut * scale ≤ reserveIn * remainingOut * 10000 :=
        mul_le_mul_of_nonneg_left (by omega) product
    _ < (quotient + 1) * (left * scale) := upper
    _ = (quotient + 1) * left * scale := by ring

/-! ## The invariant -/

variable {Address : Type} [DecidableEq Address] {amm : Address} {env : Env amm}
  {w w' : World Address} {pool pool' : PoolState Address}

/-- The reserves are non-negative machine integers and the LP balances add up to the shares. -/
structure Funded (pool : PoolState Address) (w : World Address) : Prop where
  reserveA : 0 ≤ pool.reserveA
  reserveB : 0 ≤ pool.reserveB
  fitsA : IsI128 pool.reserveA
  fitsB : IsI128 pool.reserveB
  fits : IsI128 pool.totalShares
  ledger : Balanced w.balances pool.totalShares

/-- What a share is worth of each reserve does not fall: cross-multiplied, for a change of the
reserve and of the total shares. -/
def Keeps (reserve shares reserve' shares' : ℤ) : Prop := reserve * shares' ≤ reserve' * shares

theorem depositShares_spec (funded : Funded pool w) {amountA amountB shares : ℤ}
    (posA : 0 < amountA) (posB : 0 < amountB)
    (h : depositShares pool amountA amountB = .ok shares) :
    0 ≤ shares ∧ (0 < pool.totalShares →
      Keeps pool.reserveA pool.totalShares (pool.reserveA + amountA) (pool.totalShares + shares) ∧
      Keeps pool.reserveB pool.totalShares (pool.reserveB + amountB)
        (pool.totalShares + shares)) := by
  rcases funded.ledger.total_nonneg.lt_or_eq with pos | empty
  · rw [depositShares, if_neg pos.ne'] at h
    simp only [ok_iff] at h
    obtain ⟨_, ⟨-, rfl⟩, _, ⟨nonzeroA, -, rfl⟩, _, ⟨-, rfl⟩, _, ⟨nonzeroB, -, rfl⟩, rfl⟩ := h
    have reserveA := lt_of_le_of_ne funded.reserveA nonzeroA.symm
    have reserveB := lt_of_le_of_ne funded.reserveB nonzeroB.symm
    have scaledA := (mul_pos posA pos).le
    have scaledB := (mul_pos posB pos).le
    refine ⟨le_min (tdiv_nonneg scaledA reserveA) (tdiv_nonneg scaledB reserveB), fun _ =>
      ⟨(ratio_le_after_trade_iff _ _ _ _).2 ?_, (ratio_le_after_trade_iff _ _ _ _).2 ?_⟩⟩
    · exact (mul_le_mul_of_nonneg_right (min_le_left _ _) funded.reserveA).trans
        (tdiv_mul_le scaledA reserveA)
    · exact (mul_le_mul_of_nonneg_right (min_le_right _ _) funded.reserveB).trans
        (tdiv_mul_le scaledB reserveB)
  · rw [depositShares, if_pos empty.symm] at h
    simp only [ok_iff] at h
    obtain ⟨_, ⟨-, rfl⟩, h⟩ := h
    exact ⟨(sqrt_pos (mul_pos posA posB) h).le, fun pos => by omega⟩

theorem burn_spec {reserve shares total : ℤ} (nonneg : 0 ≤ reserve) (pos : 0 < shares)
    (le : shares ≤ total) :
    0 ≤ reserve - (shares * reserve).tdiv total ∧
      Keeps reserve total (reserve - (shares * reserve).tdiv total) (total - shares) := by
  have totalPos : 0 < total := by omega
  have part := tdiv_mul_le (mul_nonneg pos.le nonneg) totalPos
  constructor
  · by_contra above
    nlinarith
  · unfold Keeps
    nlinarith

/-- The pool's trade in a swap keeps both reserves non-negative and does not lower their product. -/
theorem trade_spec (funded : Funded pool w) (fee : pool.lpFeeBps ≤ 10000)
    (fee_nonneg : 0 ≤ pool.lpFeeBps) {buyA : Bool} {ammIn ammOut : ℤ} (nonneg : 0 ≤ ammOut)
    (quoted : 0 < ammOut → ammQuote pool.lpFeeBps (reserves buyA pool).1 (reserves buyA pool).2
      ammOut = .ok ammIn) (unused : ¬ 0 < ammOut → ammIn = 0) :
    0 ≤ (trade buyA ammIn ammOut pool).reserveA ∧ 0 ≤ (trade buyA ammIn ammOut pool).reserveB ∧
      pool.reserveA * pool.reserveB ≤
        (trade buyA ammIn ammOut pool).reserveA * (trade buyA ammIn ammOut pool).reserveB ∧
      (0 < ammOut → 0 < ammIn) := by
  have reserveA := funded.reserveA
  have reserveB := funded.reserveB
  rcases nonneg.lt_or_eq with pos | zero
  · have paying : 0 ≤ (reserves buyA pool).1 := by cases buyA <;> assumption
    have bounds := ammQuote_bounds fee fee_nonneg paying pos (quoted pos)
    cases buyA with
    | true | false =>
      simp only [reserves, trade, if_true, if_false, Bool.false_eq_true] at bounds ⊢
      obtain ⟨_, inPos, _⟩ := bounds
      exact ⟨by omega, by omega, by nlinarith, fun _ => inPos⟩
  · have none : ammIn = 0 := unused (by omega)
    subst none
    subst zero
    have same : trade buyA 0 0 pool = pool := by
      cases buyA <;> simp [trade]
    rw [same]
    exact ⟨reserveA, reserveB, le_rfl, fun pos => absurd pos (lt_irrefl _)⟩

/-- What a call does to the pool: the invariant survives, and the value of a share does not fall. -/
structure Sound (pool pool' : PoolState Address) (w' : World Address) : Prop where
  funded : Funded pool' w'
  value : 0 < pool.totalShares → pool.reserveA * pool.reserveB * pool'.totalShares ^ 2 ≤
    pool'.reserveA * pool'.reserveB * pool.totalShares ^ 2

theorem Funded.sound (funded : Funded pool w) (funded' : Funded pool' w')
    (keeps : 0 < pool.totalShares →
      Keeps pool.reserveA pool.totalShares pool'.reserveA pool'.totalShares ∧
      Keeps pool.reserveB pool.totalShares pool'.reserveB pool'.totalShares) :
    Sound pool pool' w' := by
  refine ⟨funded', fun pos => ?_⟩
  have total' := funded'.ledger.total_nonneg
  calc pool.reserveA * pool.reserveB * pool'.totalShares ^ 2
      = (pool.reserveA * pool'.totalShares) * (pool.reserveB * pool'.totalShares) := by ring
    _ ≤ (pool'.reserveA * pool.totalShares) * (pool'.reserveB * pool.totalShares) :=
        mul_le_mul (keeps pos).1 (keeps pos).2 (mul_nonneg funded.reserveB total')
          (mul_nonneg funded'.reserveA pos.le)
    _ = _ := by ring

theorem Funded.exec {c : Call Address} (funded : Funded pool w) (hpool : w.pool = some pool)
    (fee : pool.lpFeeBps ≤ 10000) (fee_nonneg : 0 ≤ pool.lpFeeBps) (h : exec env w c = .ok w') :
    ∃ pool', w'.pool = some pool' ∧ Sound pool pool' w' := by
  cases c with
  | deposit provider =>
    obtain ⟨shares, h⟩ := map_snd_ok_iff.1 h
    obtain ⟨tokens, posA, posB, computed, fitsA, fitsB, fits, -, rfl⟩ := deposit_ok hpool h
    obtain ⟨_, keeps⟩ := depositShares_spec funded posA posB computed
    have reserveA := funded.reserveA
    have reserveB := funded.reserveB
    have balance := funded.ledger.getD_nonneg provider
    exact ⟨_, rfl, funded.sound ⟨by simp only; omega, by simp only; omega, fitsA, fitsB, fits,
      funded.ledger.add (by omega)⟩ keeps⟩
  | withdraw provider shares =>
    obtain ⟨⟨_, _⟩, h⟩ := map_snd_ok_iff.1 h
    obtain ⟨tokens, pos, enough, -, rfl, rfl, -, -, fitsA, fitsB, fits, -, rfl⟩ :=
      withdraw_ok hpool h
    have le := enough.trans (funded.ledger.getD_le provider)
    obtain ⟨nonnegA, keepsA⟩ := burn_spec funded.reserveA pos le
    obtain ⟨nonnegB, keepsB⟩ := burn_spec funded.reserveB pos le
    have ledger := funded.ledger.add (k := provider) (d := -shares) (by omega)
    rw [← sub_eq_add_neg, ← sub_eq_add_neg] at ledger
    exact ⟨_, rfl, funded.sound ⟨nonnegA, nonnegB, fitsA, fitsB, fits, ledger⟩
      fun _ => ⟨keepsA, keepsB⟩⟩
  | placeOrder =>
    obtain ⟨_, h⟩ := map_snd_ok_iff.1 h
    obtain ⟨tokens, -, -, -, -, -, -, rfl⟩ := placeOrder_ok hpool h
    refine ⟨_, pool_addOrder _ _,
      ⟨funded.reserveA, funded.reserveB, funded.fitsA, funded.fitsB, funded.fits, ?_⟩,
      fun _ => le_rfl⟩
    unfold addOrder
    split_ifs <;> exact funded.ledger
  | cancelOrder =>
    obtain ⟨tokens, o, -, -, ⟨-, -, rfl⟩ | ⟨-, -, rfl⟩⟩ := cancelOrder_ok hpool h
    all_goals
      exact ⟨pool, rfl, ⟨funded.reserveA, funded.reserveB, funded.fitsA, funded.fitsB,
        funded.fits, funded.ledger⟩, fun _ => le_rfl⟩
  | swap _ buyA out =>
    obtain ⟨report, h⟩ := map_snd_ok_iff.1 h
    obtain ⟨tokens, -, -, -, -, quoted, unused, fits, -, rfl⟩ := swap_ok hpool h
    have ammOut : 0 ≤ swapAmmOut buyA out pool w := ammPart_nonneg _
    obtain ⟨nonnegA, nonnegB, product, -⟩ :=
      trade_spec funded fee fee_nonneg ammOut quoted unused
    have total : (trade buyA report.ammIn (swapAmmOut buyA out pool w) pool).totalShares =
        pool.totalShares := by
      cases buyA <;> rfl
    have ranges : IsI128 (trade buyA report.ammIn (swapAmmOut buyA out pool w) pool).reserveA ∧
        IsI128 (trade buyA report.ammIn (swapAmmOut buyA out pool w) pool).reserveB := by
      by_cases pos : 0 < swapAmmOut buyA out pool w
      · exact fits pos
      · have zero : swapAmmOut buyA out pool w = 0 := by omega
        rw [zero, unused pos]
        cases buyA <;> simpa [trade] using And.intro funded.fitsA funded.fitsB
    refine ⟨_, rfl, ⟨nonnegA, nonnegB, ranges.1, ranges.2, ?_, ?_⟩, fun _ => ?_⟩
    · rw [total]
      exact funded.fits
    · rw [total]
      cases buyA <;> exact funded.ledger
    · rw [total]
      exact mul_le_mul_of_nonneg_right product (sq_nonneg _)

theorem Initial.funded (init : Initial amm w) (hpool : w.pool = some pool) : Funded pool w := by
  obtain ⟨_, _, _, _, _, _, -, -, h⟩ := init
  obtain ⟨-, -, rfl⟩ := initializePool_ok h
  obtain rfl := Option.some.inj hpool
  have zero : IsI128 0 := by decide
  exact ⟨le_rfl, le_rfl, zero, zero, zero, .empty⟩

theorem funded_of_reachable (reach : Reachable (Initial amm) (Step amm) w)
    (hpool : w.pool = some pool) (fee : pool.lpFeeBps ≤ 10000) : Funded pool w := by
  refine (reach.invariant (P := fun w => Listed amm w ∧
    ∀ pool, w.pool = some pool → pool.lpFeeBps ≤ 10000 → Funded pool w)
    (fun _ init => ⟨init.listed, fun pool hpool _ => init.funded hpool⟩) ?_).2 pool hpool fee
  rintro _ action _ ⟨listed, funded⟩ step
  refine ⟨listed.step step, fun pool₂ hpool₂ fee₂ => ?_⟩
  obtain ⟨pool₁, hpool₁, -, nonneg, -, -⟩ := listed.pool
  cases action with
  | call =>
    obtain ⟨p, hp, -, -, same, -⟩ := (listed.exec hpool₁ step).2
    obtain rfl := Option.mem_unique hpool₂ hp
    have fee₁ : pool₁.lpFeeBps ≤ 10000 := same ▸ fee₂
    obtain ⟨p, hp, sound⟩ := (funded pool₁ hpool₁ fee₁).exec hpool₁ fee₁ nonneg step
    obtain rfl := Option.mem_unique hpool₂ hp
    exact sound.funded
  | external =>
    obtain ⟨-, rfl⟩ := step
    have before := funded pool₂ hpool₂ fee₂
    exact ⟨before.reserveA, before.reserveB, before.fitsA, before.fitsB, before.fits, before.ledger⟩

/-- With an LP fee of at most 10000 basis points no call lowers the value of an LP share, and the
pool never gives output for nothing. -/
theorem lpValue_of_lpFee_le (reach : Reachable (Initial amm) (Step amm) w)
    (hpool : w.pool = some pool) (fee : pool.lpFeeBps ≤ 10000) (shares : 0 < pool.totalShares) :
    (∀ (env : Env amm) (c : Call Address) (w' : World Address) (pool' : PoolState Address),
      exec env w c = .ok w' → w'.pool = some pool' →
        pool.reserveA * pool.reserveB * pool'.totalShares ^ 2 ≤
          pool'.reserveA * pool'.reserveB * pool.totalShares ^ 2) ∧
    ∀ (env : Env amm) (taker : Address) (buyA : Bool) (out inMax : ℤ)
      (report : SwapReport Address) (w' : World Address),
      swap env taker buyA out inMax w = .ok (report, w') →
        0 < report.result.ammFilled → 0 < report.ammIn := by
  have funded := funded_of_reachable reach hpool fee
  obtain ⟨p, hp, -, nonneg, -, -⟩ := (listed_of_reachable reach).pool
  obtain rfl := Option.mem_unique hpool hp
  constructor
  · intro env c w' pool' h hpool'
    obtain ⟨_, hp', sound⟩ := funded.exec hpool fee nonneg h
    obtain rfl := Option.mem_unique hpool' hp'
    exact sound.value shares
  · intro env taker buyA out inMax report w' h pos
    obtain ⟨_, -, -, ammFilled, -, quoted, unused, -⟩ := swap_ok hpool h
    rw [ammFilled] at pos
    exact (trade_spec funded fee nonneg pos.le quoted unused).2.2.2 pos

/-! ## A pool with a fee above 10000 -/

def depositedPool (lpFeeBps : ℤ) : Outcome Error (World ℕ) := do
  let w ← initializePool 3 8 9 lpFeeBps 10 { tokens := startTokens }
  exec everyoneSigns w (.deposit 1 1000 1000)

theorem depositedPool_reachable {lpFeeBps : ℤ} {w : World ℕ} (h : depositedPool lpFeeBps = .ok w) :
    Reachable (Initial 0) (Step 0) w := by
  simp only [depositedPool, bind_ok_iff] at h
  obtain ⟨w₁, start, deposited⟩ := h
  have first : Reachable (Initial 0) (Step 0) w₁ :=
    .start ⟨3, 8, 9, lpFeeBps, 10, startTokens, by decide, fun _ => le_rfl, start⟩
  exact first.next (step_call deposited)

/-- At the default fee of 30 basis points, a swap against the pool does not lower its value. -/
theorem depositedPool_value :
    ∃ (w w' : World ℕ) (pool pool' : PoolState ℕ), depositedPool 30 = .ok w ∧
      w.pool = some pool ∧ exec everyoneSigns w (.swap 2 true 100 1000) = .ok w' ∧
      w'.pool = some pool' ∧ pool.reserveA * pool.reserveB * pool'.totalShares ^ 2 ≤
        pool'.reserveA * pool'.reserveB * pool.totalShares ^ 2 := by
  obtain ⟨w, hw, w', hw', h⟩ : ∃ w, depositedPool 30 = .ok w ∧
      ∃ w', exec everyoneSigns w (.swap 2 true 100 1000) = .ok w' ∧
        (w'.pool.isSome = true ∧
          ∀ pool ∈ w.pool, pool.lpFeeBps ≤ 10000 ∧ 0 < pool.totalShares) := by
    decide
  obtain ⟨pool, hpool, -⟩ := (listed_of_reachable (depositedPool_reachable hw)).pool
  obtain ⟨pool', hpool'⟩ := Option.isSome_iff_exists.1 h.1
  obtain ⟨fee, shares⟩ := h.2 pool hpool
  exact ⟨w, w', pool, pool', hw, hpool, hw', hpool',
    (lpValue_of_lpFee_le (depositedPool_reachable hw) hpool fee shares).1 _ _ _ _ hw' hpool'⟩

/-- At a fee of 20000 basis points the pool gives a token for nothing. -/
theorem swap_for_nothing_above_lpFee :
    ∃ (w w' : World ℕ) (report : SwapReport ℕ), Reachable (Initial 0) (Step 0) w ∧
      swap everyoneSigns 2 true 1 0 w = .ok (report, w') ∧
      0 < report.result.ammFilled ∧ ¬ 0 < report.ammIn ∧
      ∀ pool ∈ w.pool, ∀ pool' ∈ w'.pool, 0 < pool.totalShares ∧
        ¬ pool.reserveA * pool.reserveB * pool'.totalShares ^ 2 ≤
          pool'.reserveA * pool'.reserveB * pool.totalShares ^ 2 := by
  obtain ⟨w, hw, r, hr, facts⟩ : ∃ w, depositedPool 20000 = .ok w ∧
      ∃ r, swap everyoneSigns 2 true 1 0 w = .ok r ∧
        (0 < r.1.result.ammFilled ∧ ¬ 0 < r.1.ammIn ∧
          ∀ pool ∈ w.pool, ∀ pool' ∈ r.2.pool, 0 < pool.totalShares ∧
            ¬ pool.reserveA * pool.reserveB * pool'.totalShares ^ 2 ≤
              pool'.reserveA * pool'.reserveB * pool.totalShares ^ 2) := by
    decide
  exact ⟨w, r.2, r.1, depositedPool_reachable hw, hr, facts⟩

end HybridAmmLob
