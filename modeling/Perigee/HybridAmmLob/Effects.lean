import Perigee.HybridAmmLob.Matching

/-!
# What the entry points of the hybrid exchange do

Each entry point has one lemma that says what its success implies: the arguments it accepts, the
state it leaves, and what the contract's own balances of the two tokens change by (`Received`).
-/

namespace HybridAmmLob

open Soroban

variable {Address : Type} [DecidableEq Address] {amm : Address} {env : Env amm}
  {w w' : World Address} {pool : PoolState Address} {t t' : Tokens Address}
  {provider maker taker : Address} {buyA : Bool}

/-- The contract's balances of the pool's tokens change by `da` and `db`, its others by nothing. -/
def Received (amm : Address) (pool : PoolState Address) (da db : ℤ) (t t' : Tokens Address) :
    Prop :=
  ∀ token, t' token amm = t token amm + (if token = pool.tokenA then da else 0) +
    (if token = pool.tokenB then db else 0)

theorem Received.moved {da db : ℤ} (h : Received amm pool da db t t')
    (distinct : pool.tokenA ≠ pool.tokenB) :
    t' pool.tokenA amm = t pool.tokenA amm + da ∧ t' pool.tokenB amm = t pool.tokenB amm + db := by
  rw [h pool.tokenA, h pool.tokenB]
  simp [distinct, distinct.symm]

omit [DecidableEq Address] in
theorem loadPool_ok_iff : loadPool w = .ok pool ↔ w.pool = some pool :=
  okOr_ok_iff

theorem step_call {c : Call Address} (h : exec env w c = .ok w') : Step amm w (.call env c) w' := h

/-! ## Liquidity -/

omit [DecidableEq Address] in
theorem initializePool_ok {admin tokenA tokenB : Address} {lpFeeBps makerFeeBps : ℤ}
    (h : initializePool admin tokenA tokenB lpFeeBps makerFeeBps w = .ok w') :
    0 ≤ lpFeeBps ∧ 0 ≤ makerFeeBps ∧
      w' = { w with
        pool := some
          { tokenA, tokenB, lpFeeBps, makerFeeBps, admin
            reserveA := 0, reserveB := 0, totalShares := 0, nextOrderId := 1 } } := by
  simp only [initializePool, ok_iff] at h
  obtain ⟨_, -, _, _, rfl⟩ := h
  exact ⟨by omega, by omega, rfl⟩

theorem deposit_ok {amountA amountB shares : ℤ} (hpool : w.pool = some pool)
    (h : deposit env provider amountA amountB w = .ok (shares, w')) :
    ∃ tokens, 0 < amountA ∧ 0 < amountB ∧
      depositShares pool amountA amountB = .ok shares ∧
      IsI128 (pool.reserveA + amountA) ∧ IsI128 (pool.reserveB + amountB) ∧
      IsI128 (pool.totalShares + shares) ∧ Received amm pool amountA amountB w.tokens tokens ∧
      w' = { w with
        pool := some { pool with
          reserveA := pool.reserveA + amountA
          reserveB := pool.reserveB + amountB
          totalShares := pool.totalShares + shares }
        balances := w.balances.set provider (w.balances.getD provider 0 + shares)
        tokens } := by
  simp only [deposit, ok_iff, requireAuth_ok_iff, loadPool_ok_iff, hpool, Option.some.injEq] at h
  obtain ⟨_, _, _, auth, _, rfl, _, paidA, t₂, paidB, _, computed, _, ⟨-, rfl⟩,
    _, ⟨fitsA, rfl⟩, _, ⟨fitsB, rfl⟩, _, ⟨fits, rfl⟩, h⟩ := h
  obtain ⟨rfl, rfl⟩ := Prod.mk.inj h
  have other : amm ≠ provider := (Env.ne_this auth).symm
  refine ⟨t₂, by omega, by omega, computed, fitsA, fitsB, fits, fun _ => ?_, rfl⟩
  rw [Tokens.transfer_apply paidB, Tokens.transfer_apply paidA]
  simp [other]

theorem withdraw_ok {shares outA outB : ℤ} (hpool : w.pool = some pool)
    (h : withdraw env provider shares w = .ok ((outA, outB), w')) :
    ∃ tokens, 0 < shares ∧ shares ≤ w.balances.getD provider 0 ∧
      pool.totalShares ≠ 0 ∧ outA = (shares * pool.reserveA).tdiv pool.totalShares ∧
      outB = (shares * pool.reserveB).tdiv pool.totalShares ∧ 0 ≤ outA ∧ 0 ≤ outB ∧
      IsI128 (pool.reserveA - outA) ∧ IsI128 (pool.reserveB - outB) ∧
      IsI128 (pool.totalShares - shares) ∧ Received amm pool (-outA) (-outB) w.tokens tokens ∧
      w' = { w with
        pool := some { pool with
          reserveA := pool.reserveA - outA
          reserveB := pool.reserveB - outB
          totalShares := pool.totalShares - shares }
        balances := w.balances.set provider (w.balances.getD provider 0 - shares)
        tokens } := by
  simp only [withdraw, ok_iff, requireAuth_ok_iff, loadPool_ok_iff, hpool, Option.some.injEq] at h
  obtain ⟨_, _, _, auth, _, rfl, _, _, _, ⟨-, rfl⟩, _, ⟨nonzero, -, rfl⟩,
    _, ⟨-, rfl⟩, _, ⟨-, -, rfl⟩, _, ⟨-, rfl⟩, _, ⟨fitsA, rfl⟩, _, ⟨fitsB, rfl⟩, _, ⟨fits, rfl⟩,
    _, paidA, t₂, paidB, h⟩ := h
  obtain ⟨outs, rfl⟩ := Prod.mk.inj h
  obtain ⟨rfl, rfl⟩ := Prod.mk.inj outs
  have other : amm ≠ provider := (Env.ne_this auth).symm
  have nonnegA := (Tokens.transfer_ok_iff.1 paidA).1
  have nonnegB := (Tokens.transfer_ok_iff.1 paidB).1
  refine ⟨t₂, by omega, by omega, nonzero, rfl, rfl, nonnegA, nonnegB,
    fitsA, fitsB, fits, fun _ => ?_, rfl⟩
  rw [Tokens.transfer_apply paidB, Tokens.transfer_apply paidA]
  simp only [other, and_false, if_false, and_true]
  split_ifs <;> ring

/-! ## Limit orders -/

def addOrder (order : Order Address) (w : World Address) : World Address :=
  if order.isBid then { w with bids := insertBid w.bids order }
  else { w with asks := insertAsk w.asks order }

theorem placeOrder_ok {isBid : Bool} {price amount : ℤ} {id : ℕ} (hpool : w.pool = some pool)
    (h : placeOrder env maker isBid price amount w = .ok (id, w')) :
    ∃ tokens, 0 < amount ∧ 0 < price ∧ maker ≠ amm ∧
      id = pool.nextOrderId ∧ (isBid = true → IsI128 (amount * price)) ∧
      Received amm pool (if isBid then 0 else amount)
        (if isBid then (amount * price).tdiv priceScale else 0) w.tokens tokens ∧
      w' = addOrder { id, maker, isBid, price, amount } { w with
        pool := some { pool with nextOrderId := pool.nextOrderId + 1 }, tokens } := by
  simp only [placeOrder, ok_iff, requireAuth_ok_iff, loadPool_ok_iff, hpool, Option.some.injEq] at h
  obtain ⟨_, _, _, _, _, auth, _, rfl, tokens, escrowed, _, ⟨-, rfl⟩, h⟩ := h
  obtain ⟨rfl, rfl⟩ := Prod.mk.inj h
  have other : amm ≠ maker := (Env.ne_this auth).symm
  refine ⟨tokens, by omega, by omega, other.symm, rfl, ?_⟩
  cases isBid with
  | true =>
    simp only [escrow, if_true, ok_iff] at escrowed
    obtain ⟨_, ⟨fits, rfl⟩, _, ⟨-, -, rfl⟩, paid⟩ := escrowed
    refine ⟨fun _ => fits, fun token => ?_, rfl⟩
    rw [Tokens.transfer_apply paid]
    simp [other]
  | false =>
    refine ⟨fun h => (nomatch h), fun token => ?_, rfl⟩
    rw [Tokens.transfer_apply escrowed]
    simp [other]

def removeId (orderId : ℕ) (os : List (Order Address)) : List (Order Address) :=
  os.eraseP fun o => o.id == orderId

theorem cancelOrder_ok {orderId : ℕ} (hpool : w.pool = some pool)
    (h : cancelOrder env maker orderId w = .ok w') :
    ∃ tokens o, o.maker = maker ∧ maker ≠ amm ∧
      (w.bids.find? (fun o => o.id == orderId) = some o ∧
          Received amm pool 0 (-bidWorth o) w.tokens tokens ∧
          w' = { w with pool := some pool, bids := removeId orderId w.bids, tokens } ∨
        w.asks.find? (fun o => o.id == orderId) = some o ∧
          Received amm pool (-o.amount) 0 w.tokens tokens ∧
          w' = { w with pool := some pool, asks := removeId orderId w.asks, tokens }) := by
  simp only [cancelOrder, bind_ok_iff, requireAuth_ok_iff, loadPool_ok_iff, hpool,
    Option.some.injEq] at h
  obtain ⟨_, auth, _, rfl, h⟩ := h
  have other : amm ≠ maker := (Env.ne_this auth).symm
  split at h
  · rename_i o found
    simp only [ok_iff] at h
    obtain ⟨_, owner, _, ⟨-, rfl⟩, _, ⟨-, -, rfl⟩, tokens, paid, rfl⟩ := h
    refine ⟨tokens, o, not_not.1 owner, other.symm,
      .inl ⟨found, fun token => ?_, rfl⟩⟩
    rw [Tokens.transfer_apply paid]
    simp only [bidWorth, other, and_false, if_false, and_true]
    split_ifs <;> ring
  · split at h
    · rename_i o found
      simp only [ok_iff] at h
      obtain ⟨_, owner, tokens, paid, rfl⟩ := h
      refine ⟨tokens, o, not_not.1 owner, other.symm,
        .inr ⟨found, fun token => ?_, rfl⟩⟩
      rw [Tokens.transfer_apply paid]
      simp only [other, and_false, if_false, and_true]
      split_ifs <;> ring
    · cases h

/-! ## Swaps -/

/-- The pool after it takes `input` and gives `output`. -/
def trade (buyA : Bool) (input output : ℤ) (pool : PoolState Address) : PoolState Address :=
  if buyA then
    { pool with reserveA := pool.reserveA - output, reserveB := pool.reserveB + input }
  else { pool with reserveA := pool.reserveA + input, reserveB := pool.reserveB - output }

/-- What the pool gives of the output the book left over. -/
def ammPart (remainingOut : ℤ) : ℤ := if 0 < remainingOut then remainingOut else 0

def reserves (buyA : Bool) (pool : PoolState Address) : ℤ × ℤ :=
  if buyA then (pool.reserveB, pool.reserveA) else (pool.reserveA, pool.reserveB)

omit [DecidableEq Address] in
theorem swapAmm_ok {remainingOut ammIn : ℤ} {pool' : PoolState Address}
    (h : swapAmm buyA remainingOut pool = .ok (ammIn, pool')) :
    pool' = trade buyA ammIn (ammPart remainingOut) pool ∧
      (0 < remainingOut → ammQuote pool.lpFeeBps (reserves buyA pool).1 (reserves buyA pool).2
        remainingOut = .ok ammIn) ∧
      (¬ 0 < remainingOut → ammIn = 0) ∧
      (0 < remainingOut → IsI128 pool'.reserveA ∧ IsI128 pool'.reserveB) := by
  unfold swapAmm at h
  by_cases pos : 0 < remainingOut
  · rw [if_pos pos] at h
    cases buyA with
    | true =>
      simp only [if_true, ok_iff] at h
      obtain ⟨_, quoted, _, ⟨fitsA, rfl⟩, _, ⟨fitsB, rfl⟩, h⟩ := h
      obtain ⟨rfl, rfl⟩ := Prod.mk.inj h
      exact ⟨by simp [trade, ammPart, pos], fun _ => quoted, fun no => absurd pos no,
        fun _ => ⟨fitsA, fitsB⟩⟩
    | false =>
      simp only [Bool.false_eq_true, if_false, ok_iff] at h
      obtain ⟨_, quoted, _, ⟨fitsB, rfl⟩, _, ⟨fitsA, rfl⟩, h⟩ := h
      obtain ⟨rfl, rfl⟩ := Prod.mk.inj h
      exact ⟨by simp [trade, ammPart, pos], fun _ => quoted, fun no => absurd pos no,
        fun _ => ⟨fitsA, fitsB⟩⟩
  · rw [if_neg pos, pure_ok_iff] at h
    obtain ⟨rfl, rfl⟩ := Prod.mk.inj h
    refine ⟨?_, fun yes => absurd yes pos, fun _ => rfl, fun yes => absurd yes pos⟩
    cases buyA <;> simp [trade, ammPart, pos]

def swapFills (buyA : Bool) (out : ℤ) (pool : PoolState Address) (w : World Address) :
    List (Fill Address) := (side buyA pool.makerFeeBps).fills out (book buyA w)

def swapAmmOut (buyA : Bool) (out : ℤ) (pool : PoolState Address) (w : World Address) : ℤ :=
  ammPart (out - totalOut (swapFills buyA out pool w))

theorem payAmm_apply {tokenOut : Address} {ammFilled : ℤ}
    (h : payAmm t tokenOut amm taker ammFilled = .ok t') (nonneg : 0 ≤ ammFilled)
    (other : amm ≠ taker) (token : Address) :
    t' token amm = t token amm - if token = tokenOut then ammFilled else 0 := by
  unfold payAmm at h
  split_ifs at h with pos
  · rw [Tokens.transfer_apply h]
    simp [other]
  · rw [pure_ok_iff] at h
    obtain rfl := h
    have : ammFilled = 0 := by omega
    simp [this]

theorem ammPart_nonneg (remainingOut : ℤ) : 0 ≤ ammPart remainingOut := by
  unfold ammPart
  split_ifs <;> omega

theorem swap_ok {out inMax : ℤ} {report : SwapReport Address} (hpool : w.pool = some pool)
    (h : swap env taker buyA out inMax w = .ok (report, w')) :
    ∃ tokens, 0 < out ∧
      report.fills = swapFills buyA out pool w ∧
      report.result.ammFilled = swapAmmOut buyA out pool w ∧
      (∀ f ∈ swapFills buyA out pool w, 0 ≤ f.2.out ∧ 0 ≤ f.2.cost) ∧
      (0 < swapAmmOut buyA out pool w → ammQuote pool.lpFeeBps (reserves buyA pool).1
        (reserves buyA pool).2 (swapAmmOut buyA out pool w) = .ok report.ammIn) ∧
      (¬ 0 < swapAmmOut buyA out pool w → report.ammIn = 0) ∧
      (0 < swapAmmOut buyA out pool w →
        IsI128 (trade buyA report.ammIn (swapAmmOut buyA out pool w) pool).reserveA ∧
          IsI128 (trade buyA report.ammIn (swapAmmOut buyA out pool w) pool).reserveB) ∧
      ((∀ o ∈ book buyA w, o.maker ≠ amm) →
        Received amm pool
          (if buyA then -(totalOut (swapFills buyA out pool w) + swapAmmOut buyA out pool w)
            else report.ammIn)
          (if buyA then report.ammIn
            else -(totalOut (swapFills buyA out pool w) + swapAmmOut buyA out pool w))
          w.tokens tokens) ∧
      w' = { setBook buyA ((side buyA pool.makerFeeBps).rest out (book buyA w)) w with
        pool := some (trade buyA report.ammIn (swapAmmOut buyA out pool w) pool), tokens } := by
  simp only [swap, ok_iff, requireAuth_ok_iff, loadPool_ok_iff, hpool, Option.some.injEq] at h
  obtain ⟨_, _, _, auth, _, rfl, ⟨_, p⟩, matched, ⟨_, _⟩, amm', _,
    ⟨-, rfl⟩, _, -, _, collected, t₂, paid, h⟩ := h
  obtain ⟨rfl, rfl⟩ := Prod.mk.inj h
  have quotes {remaining : ℤ} {o : Order Address} {q : Quote}
      (quoted : (matching amm taker buyA pool).quote remaining o = .ok q) :
      q = (side buyA pool.makerFeeBps).fill o
        (min remaining ((side buyA pool.makerFeeBps).fillable o)) := by
    cases buyA with
    | true => exact askQuote_ok quoted
    | false => exact bidQuote_ok quoted
  obtain ⟨rfl, filled⟩ := matchLoop_filled quotes matched
  obtain ⟨rfl, quoted, unused, fits⟩ := swapAmm_ok amm'
  have remaining : p.remainingOut = out - totalOut (swapFills buyA out pool w) :=
    filled.remainingOut
  have totalIn : p.totalIn = totalCost (swapFills buyA out pool w) := by
    simpa [swapFills] using filled.totalIn
  have ammOut : ammPart p.remainingOut = swapAmmOut buyA out pool w := by
    rw [remaining, swapAmmOut]
  have used : 0 < swapAmmOut buyA out pool w ↔ 0 < p.remainingOut := by
    rw [← ammOut, ammPart]
    split_ifs with pos
    · exact iff_of_true pos pos
    · exact iff_of_false (lt_irrefl _) pos
  have other : amm ≠ taker := (Env.ne_this auth).symm
  refine ⟨t₂, by omega, ?_, ammOut, filled.nonneg, ?_, ?_, ?_, ?_, ?_⟩
  · simpa [swapFills] using filled.fills
  · intro pos
    have eq : swapAmmOut buyA out pool w = p.remainingOut := by
      rw [← ammOut, ammPart, if_pos (used.1 pos)]
    rw [eq]
    exact quoted (used.1 pos)
  · exact fun none => unused (fun pos => none (used.2 pos))
  · intro pos
    rw [← ammOut]
    exact fits (used.1 pos)
  · intro makers token
    have fillMakers : ∀ f ∈ (side buyA pool.makerFeeBps).fills out (book buyA w),
        f.1.maker ≠ amm := by
      intro f hf
      obtain ⟨a, ha, rfl⟩ := List.mem_map.1 hf
      exact makers _ ((allocation_orders _ _ _).subset (List.mem_map_of_mem ha))
    have taken : (matching amm taker buyA pool).taker ≠ (matching amm taker buyA pool).amm := by
      cases buyA <;> exact other.symm
    have loop := filled.paid taken (by cases buyA <;> exact fillMakers) token
    have final := payAmm_apply paid (ammPart_nonneg p.remainingOut) other token
    rw [Tokens.transfer_apply collected] at final
    change _ = _ - (if _ then ammPart p.remainingOut else 0) at final
    rw [ammOut, totalIn] at final
    cases buyA with
    | true | false =>
      simp only [matching, Bool.false_eq_true, if_true, if_false, other, and_false,
        and_true] at loop final ⊢
      rw [final, loop]
      simp only [swapFills]
      split_ifs <;> ring
  · rw [← ammOut]

end HybridAmmLob
