import Perigee.HybridAmmLob.Liquidity

/-!
# Solvency of the exchange

The contract owes the reserves to the LPs, the amounts of the asks, and what the bids are worth at
their prices.  A fill of a bid rounds down twice; what the bid is worth afterwards is within what is
left of its escrow exactly when the two remainders add up to less than `10 ^ 6` (`bidLeft_le_iff`).
-/

namespace HybridAmmLob

open Soroban Rounding EditedList

variable {Address : Type} {os : List (Order Address)} {v : Order Address → ℤ} {o : Order Address}
  {t shares : ℤ}

/-! ## What the orders are owed -/

/-- What the orders `os` are owed, if each is owed `v`. -/
def owed (v : Order Address → ℤ) (os : List (Order Address)) : ℤ := (os.map v).sum

theorem owed_cons (v : Order Address → ℤ) (o : Order Address) (os : List (Order Address)) :
    owed v (o :: os) = v o + owed v os := by
  simp [owed]

theorem le_owed (nonneg : ∀ o ∈ os, 0 ≤ v o) (ho : o ∈ os) : v o ≤ owed v os :=
  List.single_le_sum (List.forall_mem_map.2 nonneg) _ (List.mem_map_of_mem ho)

theorem owed_nonneg (nonneg : ∀ o ∈ os, 0 ≤ v o) : 0 ≤ owed v os :=
  List.sum_nonneg (List.forall_mem_map.2 nonneg)

theorem owed_insert (v : Order Address → ℤ) (p : Order Address → Bool) (os : List (Order Address))
    (o : Order Address) : owed v (os.insertIdx (os.findIdx p) o) = v o + owed v os := by
  exact ((perm_insertIdx_findIdx _ o os).map v).sum_eq

theorem owed_removeId (v : Order Address → ℤ) {orderId : ℕ}
    (found : os.find? (fun o => o.id == orderId) = some o) :
    owed v (removeId orderId os) = owed v os - v o := by
  induction os with
  | nil => cases found
  | cons o' _ ih =>
    unfold removeId at ih ⊢
    cases hit : o'.id == orderId with
    | true =>
      simp only [List.find?_cons, hit] at found
      simp only [List.eraseP_cons, hit, cond_true]
      rw [owed_cons, Option.some.inj found]
      ring
    | false =>
      simp only [List.find?_cons, hit] at found
      simp only [List.eraseP_cons, hit, cond_false]
      rw [owed_cons, owed_cons, ih found]
      ring

/-- If no fill leaves an order owed more than before less the output it gave, the same holds of the
whole side. -/
theorem owed_rest_le {s : Side Address} {remaining : ℤ}
    (each : ∀ a ∈ allocation s.fillable remaining os,
      (Side.left a.1 (s.fill a.1 a.2)).elim 0 v ≤ v a.1 - a.2) :
    owed v (s.rest remaining os) ≤ owed v os - totalOut (s.fills remaining os) := by
  induction os generalizing remaining with
  | nil => exact le_rfl
  | cons o os ih =>
    by_cases pos : 0 < remaining
    · rw [allocation_cons pos, List.forall_mem_cons] at each
      have later := ih each.2
      have split : owed v ((Side.left o (s.fill o (min remaining (s.fillable o)))).toList ++
          s.rest (remaining - min remaining (s.fillable o)) os) =
          (Side.left o (s.fill o (min remaining (s.fillable o)))).elim 0 v +
            owed v (s.rest (remaining - min remaining (s.fillable o)) os) := by
        cases Side.left o (s.fill o (min remaining (s.fillable o))) with
        | none => exact (zero_add _).symm
        | some o' => exact owed_cons v o' _
      rw [Side.rest_cons pos, Side.fills_cons pos, owed_cons]
      simp only [totalOut, List.map_cons, List.sum_cons, s.out_fill] at later ⊢
      linarith
    · rw [Side.rest_of_nonpos pos, Side.fills_of_nonpos pos]
      simp [totalOut]

/-! ## One fill -/

/-- The two remainders of taking `t` from a bid add up to less than the scale. -/
def ExactSale (a : Order Address × ℤ) : Prop :=
  (a.1.amount * a.1.price) % priceScale + (a.2 * priceScale) % a.1.price < priceScale

instance (a : Order Address × ℤ) : Decidable (ExactSale a) := inferInstanceAs (Decidable (_ < _))

theorem bidWorth_left {amm : Address} (valid : o.Valid amm) (nonneg : 0 ≤ t) (le : t ≤ bidWorth o) :
    bidWorth { o with amount := o.amount - (t * priceScale).tdiv o.price } =
      bidWorth o - t +
        ((o.amount * o.price) % priceScale + (t * priceScale) % o.price) / priceScale := by
  have price := valid.price_pos
  have whole : 0 ≤ o.amount * o.price := mul_nonneg valid.amount_pos.le price.le
  have scaled : 0 ≤ t * priceScale := mul_nonneg nonneg priceScale_pos.le
  have bounds := bidFill_bounds valid nonneg le
  have left : 0 ≤ (o.amount - (t * priceScale).tdiv o.price) * o.price :=
    mul_nonneg (by omega) price.le
  unfold bidWorth
  rw [Int.tdiv_eq_ediv_of_nonneg left, Int.tdiv_eq_ediv_of_nonneg whole,
    Int.tdiv_eq_ediv_of_nonneg scaled]
  have first := Int.mul_ediv_add_emod (o.amount * o.price) priceScale
  have second := Int.mul_ediv_add_emod (t * priceScale) o.price
  have regroup : (o.amount - t * priceScale / o.price) * o.price =
      (o.amount * o.price) % priceScale + (t * priceScale) % o.price +
        (o.amount * o.price / priceScale - t) * priceScale := by
    linarith
  rw [regroup, Int.add_mul_ediv_right _ _ priceScale_pos.ne']
  ring

/-- A bid partly filled is worth no more than what is left of its escrow exactly when the sale is
exact. -/
theorem bidLeft_le_iff {amm : Address} (valid : o.Valid amm) (nonneg : 0 ≤ t)
    (le : t ≤ bidWorth o) :
    bidWorth { o with amount := o.amount - (t * priceScale).tdiv o.price } ≤ bidWorth o - t ↔
      ExactSale (o, t) := by
  rw [bidWorth_left valid nonneg le]
  have r₁ := Int.emod_nonneg (o.amount * o.price) priceScale_pos.ne'
  have r₂ := Int.emod_nonneg (t * priceScale) valid.price_pos.ne'
  have small : ((o.amount * o.price) % priceScale + (t * priceScale) % o.price) / priceScale < 1 ↔
      ExactSale (o, t) := by
    rw [Int.ediv_lt_iff_lt_mul priceScale_pos]
    rfl
  rw [← small]
  omega

/-! ## The invariant -/

variable [DecidableEq Address] {amm : Address} {env : Env amm} {w w' : World Address}
  {pool : PoolState Address}

/-- The contract holds the reserves and what the orders are owed. -/
structure Solvent (amm : Address) (pool : PoolState Address) (w : World Address) : Prop where
  tokenA : pool.reserveA + owed (fun o => o.amount) w.asks ≤ w.tokens pool.tokenA amm
  tokenB : pool.reserveB + owed bidWorth w.bids ≤ w.tokens pool.tokenB amm

def ExactSales (w : World Address) : Action amm → Prop
  | .call _ (.swap _ false out _) => ∀ a ∈ allocation bidWorth out w.bids, ExactSale a
  | _ => True

omit [DecidableEq Address] in
theorem owed_swap (pool : PoolState Address) (buyA : Bool) (out : ℤ) (listed : Listed amm w)
    (sales : buyA = false → ∀ a ∈ allocation bidWorth out w.bids, ExactSale a) :
    owed (side buyA pool.makerFeeBps).fillable
        ((side buyA pool.makerFeeBps).rest out (book buyA w)) ≤
      owed (side buyA pool.makerFeeBps).fillable (book buyA w) -
        totalOut (swapFills buyA out pool w) := by
  refine owed_rest_le fun a ha => ?_
  obtain ⟨mem, nonneg, le⟩ := allocation_bounds
    (fun o ho => side_fillable_nonneg (listed.valid_book buyA o ho) buyA pool.makerFeeBps) ha
  cases buyA with
  | true =>
    unfold Side.left
    split_ifs with spent
    · exact spent.ge
    · exact le_rfl
  | false =>
    unfold Side.left
    split_ifs with spent
    · exact sub_nonneg.2 le
    · exact (bidLeft_le_iff (listed.valid_book false a.1 mem) nonneg le).2 (sales rfl a ha)

theorem Solvent.exec {c : Call Address} (solvent : Solvent amm pool w) (listed : Listed amm w)
    (hpool : w.pool = some pool) (cond : ExactSales w (.call env c)) (h : exec env w c = .ok w') :
    ∃ pool', w'.pool = some pool' ∧ Solvent amm pool' w' := by
  obtain ⟨p, hp, distinct, -⟩ := listed.pool
  obtain rfl := Option.mem_unique hpool hp
  have heldA := solvent.tokenA
  have heldB := solvent.tokenB
  cases c with
  | deposit =>
    obtain ⟨_, h⟩ := map_snd_ok_iff.1 h
    obtain ⟨tokens, -, -, -, -, -, -, received, rfl⟩ := deposit_ok hpool h
    obtain ⟨movedA, movedB⟩ := received.moved distinct
    exact ⟨_, rfl, by simp only; omega, by simp only; omega⟩
  | withdraw =>
    obtain ⟨⟨_, _⟩, h⟩ := map_snd_ok_iff.1 h
    obtain ⟨tokens, -, -, -, -, -, -, -, -, -, -, received, rfl⟩ := withdraw_ok hpool h
    obtain ⟨movedA, movedB⟩ := received.moved distinct
    exact ⟨_, rfl, by simp only; omega, by simp only; omega⟩
  | placeOrder maker isBid price amount =>
    obtain ⟨id, h⟩ := map_snd_ok_iff.1 h
    obtain ⟨tokens, -, -, -, -, -, received, rfl⟩ := placeOrder_ok hpool h
    obtain ⟨movedA, movedB⟩ := received.moved distinct
    cases isBid with
    | true =>
      have grown : owed bidWorth (insertBid w.bids ⟨id, maker, true, price, amount⟩) =
        (amount * price).tdiv priceScale + _ := owed_insert bidWorth _ w.bids _
      simp only [if_true] at movedA movedB
      refine ⟨_, rfl, ?_, ?_⟩
      · show pool.reserveA + owed _ w.asks ≤ tokens pool.tokenA amm
        omega
      · show pool.reserveB + owed bidWorth (insertBid w.bids _) ≤ tokens pool.tokenB amm
        omega
    | false =>
      have grown : owed _ (insertAsk w.asks ⟨id, maker, false, price, amount⟩) = amount + _ :=
        owed_insert (fun o => o.amount) _ w.asks _
      simp only [Bool.false_eq_true, if_false] at movedA movedB
      refine ⟨_, rfl, ?_, ?_⟩
      · show pool.reserveA + owed _ (insertAsk w.asks _) ≤ tokens pool.tokenA amm
        omega
      · show pool.reserveB + owed bidWorth w.bids ≤ tokens pool.tokenB amm
        omega
  | cancelOrder =>
    obtain ⟨tokens, o, -, -, ⟨found, received, rfl⟩ | ⟨found, received, rfl⟩⟩ :=
      cancelOrder_ok hpool h
    · obtain ⟨movedA, movedB⟩ := received.moved distinct
      have left := owed_removeId bidWorth found
      exact ⟨pool, rfl, by simp only; omega, by simp only; omega⟩
    · obtain ⟨movedA, movedB⟩ := received.moved distinct
      have left := owed_removeId (fun o => o.amount) found
      exact ⟨pool, rfl, by simp only; omega, by simp only; omega⟩
  | swap _ buyA out =>
    obtain ⟨report, h⟩ := map_snd_ok_iff.1 h
    obtain ⟨tokens, -, -, -, -, -, -, -, received, rfl⟩ := swap_ok hpool h
    have moved := received fun o ho => (listed.valid_book buyA o ho).maker
    obtain ⟨movedA, movedB⟩ := moved.moved distinct
    refine ⟨_, rfl, ?_⟩
    cases buyA with
    | true =>
      have left := owed_swap pool true out listed (fun h => nomatch h)
      simp only [if_true] at movedA movedB
      constructor
      · show pool.reserveA - swapAmmOut true out pool w +
          owed (fun o => o.amount) ((side true pool.makerFeeBps).rest out w.asks) ≤
            tokens pool.tokenA amm
        change owed (fun o => o.amount) ((side true pool.makerFeeBps).rest out w.asks) ≤
          owed (fun o => o.amount) w.asks - _ at left
        omega
      · show pool.reserveB + report.ammIn + owed bidWorth w.bids ≤ tokens pool.tokenB amm
        omega
    | false =>
      have left := owed_swap pool false out listed (fun _ => cond)
      simp only [Bool.false_eq_true, if_false] at movedA movedB
      constructor
      · show pool.reserveA + report.ammIn + owed (fun o => o.amount) w.asks ≤
          tokens pool.tokenA amm
        omega
      · show pool.reserveB - swapAmmOut false out pool w +
          owed bidWorth ((side false pool.makerFeeBps).rest out w.bids) ≤ tokens pool.tokenB amm
        change owed bidWorth ((side false pool.makerFeeBps).rest out w.bids) ≤
          owed bidWorth w.bids - _ at left
        omega

omit [DecidableEq Address] in
theorem Initial.solvent (init : Initial amm w) (hpool : w.pool = some pool) :
    Solvent amm pool w := by
  obtain ⟨_, _, _, _, _, _, -, nonneg, h⟩ := init
  obtain ⟨-, -, rfl⟩ := initializePool_ok h
  obtain rfl := Option.some.inj hpool
  exact ⟨nonneg _, nonneg _⟩

theorem solvent_of_guarded (reach : Reachable (Initial amm) (Guarded ExactSales (Step amm)) w) :
    ∃ pool, w.pool = some pool ∧ Solvent amm pool w := by
  refine (reach.invariant (P := fun w => Listed amm w ∧
    ∃ pool, w.pool = some pool ∧ Solvent amm pool w) (fun _ init => ?_) ?_).2
  · obtain ⟨pool, hpool, -⟩ := init.listed.pool
    exact ⟨init.listed, pool, hpool, init.solvent hpool⟩
  · rintro _ action _ ⟨listed, pool, hpool, solvent⟩ ⟨cond, step⟩
    refine ⟨listed.step step, ?_⟩
    cases action with
    | call => exact solvent.exec listed hpool cond step
    | external =>
      obtain ⟨grows, rfl⟩ := step
      exact ⟨pool, hpool, solvent.tokenA.trans (grows _), solvent.tokenB.trans (grows _)⟩

/-! ## What solvency is for -/

omit [DecidableEq Address] in
theorem find?_id (ids : (os.map Order.id).Nodup) (ho : o ∈ os) :
    os.find? (fun o' => o'.id == o.id) = some o := by
  induction os with
  | nil => cases ho
  | cons o' _ ih =>
    rw [List.map_cons, List.nodup_cons] at ids
    rcases List.mem_cons.1 ho with rfl | ho
    · exact List.find?_cons_of_pos (by simp)
    · have other : o'.id ≠ o.id := fun eq => ids.1 (eq ▸ List.mem_map_of_mem ho)
      rw [List.find?_cons_of_neg (by simpa using other)]
      exact ih ids.2 ho

theorem burn_range {reserve total : ℤ} (nonneg : 0 ≤ reserve) (fits : IsI128 reserve)
    (pos : 0 < shares) (le : shares ≤ total) :
    0 ≤ (shares * reserve).tdiv total ∧ (shares * reserve).tdiv total ≤ reserve ∧
      IsI128 ((shares * reserve).tdiv total) ∧
      IsI128 (reserve - (shares * reserve).tdiv total) := by
  have paid := tdiv_nonneg (mul_nonneg pos.le nonneg) (pos.trans_le le)
  have left := (burn_spec nonneg pos le).1
  unfold IsI128 at *
  exact ⟨paid, by omega, by omega, by omega⟩

section Solvent

variable (listed : Listed amm w) (hpool : w.pool = some pool) (funded : Funded pool w)
  (solvent : Solvent amm pool w)

include listed hpool funded solvent

theorem cancel_succeeds (ho : o ∈ w.bids ++ w.asks) (auth : env.auth o.maker = true) :
    ∃ w', cancelOrder env o.maker o.id w = .ok w' := by
  have ids := listed.ids
  rw [List.map_append] at ids
  have valid := listed.valid
  apply bind_succeeds (a := ()) (requireAuth_ok_iff.2 auth)
  apply bind_succeeds (loadPool_ok_iff.2 hpool)
  rcases List.mem_append.1 ho with bid | ask
  · have nonneg := bidWorth_nonneg (valid o ho)
    have covered : bidWorth o ≤ owed bidWorth w.bids :=
      le_owed (fun o ho => bidWorth_nonneg (valid o (List.mem_append_left _ ho))) bid
    have held := solvent.tokenB
    have reserve := funded.reserveB
    have fits := listed.worth o bid
    have worth := tdiv_mul_le (mul_nonneg (valid o ho).amount_pos.le (valid o ho).price_pos.le)
      priceScale_pos
    have range : IsI128 (bidWorth o) := by
      have le : bidWorth o ≤ bidWorth o * priceScale := by
        unfold priceScale
        omega
      have := fits.2
      exact ⟨by linarith [nonneg], (le.trans worth).trans_lt this⟩
    simp only [find?_id ids.of_append_left bid]
    apply bind_succeeds (a := ()) (reject_ok_iff.2 (not_not.2 rfl))
    apply bind_succeeds (checkedI128_ok_iff.2 ⟨fits, rfl⟩)
    apply bind_succeeds (divI128_ok_iff.2 ⟨priceScale_pos.ne', range, rfl⟩)
    apply bind_succeeds (Tokens.transfer_ok_iff.2 ⟨nonneg, by omega, rfl⟩)
    exact ⟨_, rfl⟩
  · have absent : w.bids.find? (fun o' => o'.id == o.id) = none := by
      rw [List.find?_eq_none]
      intro o' ho' same
      exact List.disjoint_of_nodup_append ids (List.mem_map_of_mem ho')
        (beq_iff_eq.1 same ▸ List.mem_map_of_mem ask)
    have covered := le_owed (v := fun o => o.amount)
      (fun o ho => (valid o (List.mem_append_right _ ho)).amount_pos.le) ask
    have held := solvent.tokenA
    have reserve := funded.reserveA
    simp only [absent, find?_id ids.of_append_right ask]
    apply bind_succeeds (a := ()) (reject_ok_iff.2 (not_not.2 rfl))
    apply bind_succeeds (Tokens.transfer_ok_iff.2 ⟨(valid o ho).amount_pos.le, by omega, rfl⟩)
    exact ⟨_, rfl⟩

theorem withdraw_succeeds {provider : Address} (auth : env.auth provider = true) (pos : 0 < shares)
    (enough : shares ≤ w.balances.getD provider 0) (fitsA : IsI128 (shares * pool.reserveA))
    (fitsB : IsI128 (shares * pool.reserveB)) : ∃ r, withdraw env provider shares w = .ok r := by
  obtain ⟨p, hp, distinct, -⟩ := listed.pool
  obtain rfl := Option.mem_unique hpool hp
  have most := funded.ledger.getD_le provider
  have le := enough.trans most
  have asks : 0 ≤ owed (fun o => o.amount) w.asks :=
    owed_nonneg fun o ho => (listed.valid o (List.mem_append_right _ ho)).amount_pos.le
  have bids : 0 ≤ owed bidWorth w.bids :=
    owed_nonneg fun o ho => bidWorth_nonneg (listed.valid o (List.mem_append_left _ ho))
  have heldA := solvent.tokenA
  have heldB := solvent.tokenB
  obtain ⟨paidA, _, rangeA, leftA⟩ := burn_range funded.reserveA funded.fitsA pos le
  obtain ⟨paidB, _, rangeB, leftB⟩ := burn_range funded.reserveB funded.fitsB pos le
  have total : pool.totalShares ≠ 0 := by omega
  have fits := funded.fits
  unfold IsI128 at fits
  have first : (w.tokens.transfer pool.tokenA amm provider
      ((shares * pool.reserveA).tdiv pool.totalShares) : Outcome Error _) = .ok _ :=
    Tokens.transfer_ok_iff.2 ⟨paidA, by omega, rfl⟩
  have balance := Tokens.transfer_apply first pool.tokenB amm
  simp only [distinct.symm, false_and] at balance
  apply bind_succeeds (a := ()) (reject_ok_iff.2 (by omega))
  apply bind_succeeds (a := ()) (requireAuth_ok_iff.2 auth)
  apply bind_succeeds (loadPool_ok_iff.2 hpool)
  apply bind_succeeds (a := ()) (reject_ok_iff.2 (by omega))
  apply bind_succeeds (i128_ok_iff.2 ⟨fitsA, rfl⟩)
  apply bind_succeeds (divI128_ok_iff.2 ⟨total, rangeA, rfl⟩)
  apply bind_succeeds (i128_ok_iff.2 ⟨fitsB, rfl⟩)
  apply bind_succeeds (divI128_ok_iff.2 ⟨total, rangeB, rfl⟩)
  apply bind_succeeds (i128_ok_iff.2 ⟨⟨by omega, by omega⟩, rfl⟩)
  apply bind_succeeds (i128_ok_iff.2 ⟨leftA, rfl⟩)
  apply bind_succeeds (i128_ok_iff.2 ⟨leftB, rfl⟩)
  apply bind_succeeds (i128_ok_iff.2 ⟨⟨by omega, by omega⟩, rfl⟩)
  apply bind_succeeds first
  apply bind_succeeds (Tokens.transfer_ok_iff.2 ⟨paidB, by omega, rfl⟩)
  exact ⟨_, rfl⟩

end Solvent

/-- While every sale fills bids exactly, the contract holds the reserves and what all orders are
owed; with an LP fee of at most 10000 basis points every order can then be cancelled, and every LP
can withdraw any part of their shares whose products with the reserves do not overflow. -/
theorem solvent_of_exact_sales
    (reach : Reachable (Initial amm) (Guarded ExactSales (Step amm)) w) :
    ∃ pool, w.pool = some pool ∧
      pool.reserveA + (w.asks.map fun o => o.amount).sum ≤ w.tokens pool.tokenA amm ∧
      pool.reserveB + (w.bids.map fun o => (o.amount * o.price).tdiv priceScale).sum ≤
        w.tokens pool.tokenB amm ∧
      (pool.lpFeeBps ≤ 10000 →
        (∀ (env : Env amm), ∀ o ∈ w.bids ++ w.asks, env.auth o.maker = true →
          ∃ w', cancelOrder env o.maker o.id w = .ok w') ∧
        ∀ (env : Env amm) (provider : Address) (shares : ℤ), env.auth provider = true →
          0 < shares → shares ≤ w.balances.getD provider 0 → IsI128 (shares * pool.reserveA) →
          IsI128 (shares * pool.reserveB) → ∃ r, withdraw env provider shares w = .ok r) := by
  obtain ⟨pool, hpool, solvent⟩ := solvent_of_guarded reach
  have listed := listed_of_reachable reach.of_guarded
  refine ⟨pool, hpool, solvent.tokenA, solvent.tokenB, fun fee => ?_⟩
  have funded := funded_of_reachable reach.of_guarded hpool fee
  constructor
  · exact fun env o ho auth => cancel_succeeds listed hpool funded solvent ho auth
  · intro env provider shares auth pos enough fitsA fitsB
    exact withdraw_succeeds listed hpool funded solvent auth pos enough fitsA fitsB

/-! ## Exact and inexact sales -/

/-- After an exact sale for 3 of token 9, the book of three orders is covered. -/
theorem threeOrders_solvent :
    ∃ (w w' : World ℕ) (pool : PoolState ℕ), threeOrders = .ok w ∧
      exec everyoneSigns w (.swap 1 false 3 100) = .ok w' ∧ w'.pool = some pool ∧
      pool.reserveB + (w'.bids.map fun o => (o.amount * o.price).tdiv priceScale).sum ≤
        w'.tokens pool.tokenB 0 := by
  obtain ⟨w, hw, w', hw', sales⟩ : ∃ w, threeOrders = .ok w ∧
      ∃ w', exec everyoneSigns w (.swap 1 false 3 100) = .ok w' ∧
        ∀ a ∈ allocation bidWorth 3 w.bids, ExactSale a := by
    decide
  have before : Reachable (Initial 0) (Guarded ExactSales (Step 0)) w :=
    threeOrders_guarded (fun _ _ _ _ _ _ => trivial) hw
  obtain ⟨pool, hpool, -, tokenB, -⟩ :=
    solvent_of_exact_sales (before.next_guarded (step_call hw') sales)
  exact ⟨w, w', pool, hw, hw', hpool, tokenB⟩

/-- After a sale for 1 of token 9, taken from the bid at 3 for nothing, the contract holds 5 of the
6 that its bids are owed. -/
theorem insolvent_after_inexact_sale :
    ∃ w : World ℕ, Reachable (Initial 0) (Step 0) w ∧ ∀ pool ∈ w.pool,
      ¬ pool.reserveB + (w.bids.map fun o => (o.amount * o.price).tdiv priceScale).sum ≤
        w.tokens pool.tokenB 0 := by
  obtain ⟨w, hw, w', hw', short⟩ : ∃ w, threeOrders = .ok w ∧
      ∃ w', exec everyoneSigns w (.swap 1 false 1 0) = .ok w' ∧ ∀ pool ∈ w'.pool,
        ¬ pool.reserveB + (w'.bids.map fun o => (o.amount * o.price).tdiv priceScale).sum ≤
          w'.tokens pool.tokenB 0 := by
    decide
  exact ⟨w', (threeOrders_reachable hw).next (step_call hw'), short⟩

end HybridAmmLob
