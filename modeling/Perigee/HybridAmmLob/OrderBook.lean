import Perigee.HybridAmmLob.Effects

/-!
# The order book

`Listed` is the invariant of the two lists of orders: best price first, older orders first at equal
prices, distinct ids below the next one, positive prices and amounts.  An insertion keeps it; a
cancellation and a swap only thin a list out (`Thinned`), which keeps it too.
-/

namespace HybridAmmLob

open Soroban EditedList Rounding

variable {Address : Type} {o order : Order Address} {os os' : List (Order Address)}
  {pool : PoolState Address}

/-- The bid `a` is matched before the bid `b`. -/
def BidBefore (a b : Order Address) : Prop := b.price < a.price ∨ a.price = b.price ∧ a.id < b.id

def AskBefore (a b : Order Address) : Prop := a.price < b.price ∨ a.price = b.price ∧ a.id < b.id

/-- An order that `placeOrder` accepts; the contract itself never places one. -/
structure Order.Valid (amm : Address) (o : Order Address) : Prop where
  price_pos : 0 < o.price
  amount_pos : 0 < o.amount
  maker : o.maker ≠ amm

/-! ## What an order can give -/

theorem priceScale_pos : 0 < priceScale := by decide

theorem bidWorth_nonneg {amm : Address} (valid : o.Valid amm) : 0 ≤ bidWorth o :=
  tdiv_nonneg (mul_nonneg valid.amount_pos.le valid.price_pos.le) priceScale_pos

theorem bidFill_bounds {amm : Address} {t : ℤ} (valid : o.Valid amm) (nonneg : 0 ≤ t)
    (le : t ≤ bidWorth o) :
    0 ≤ (t * priceScale).tdiv o.price ∧ (t * priceScale).tdiv o.price ≤ o.amount := by
  have scaled : 0 ≤ t * priceScale := mul_nonneg nonneg priceScale_pos.le
  refine ⟨tdiv_nonneg scaled valid.price_pos, ?_⟩
  have worth := tdiv_mul_le (mul_nonneg valid.amount_pos.le valid.price_pos.le) priceScale_pos
  refine le_of_mul_le_mul_right ?_ valid.price_pos
  calc (t * priceScale).tdiv o.price * o.price ≤ t * priceScale :=
        tdiv_mul_le scaled valid.price_pos
    _ ≤ bidWorth o * priceScale := mul_le_mul_of_nonneg_right le priceScale_pos.le
    _ ≤ o.amount * o.price := worth

theorem side_fillable_nonneg {amm : Address} (valid : o.Valid amm) (buyA : Bool) (makerFeeBps : ℤ) :
    0 ≤ (side buyA makerFeeBps).fillable o := by
  cases buyA with
  | true => exact valid.amount_pos.le
  | false => exact bidWorth_nonneg valid

/-! ## Thinning a list out -/

/-- What a fill leaves unchanged of an order. -/
def Order.key (o : Order Address) : ℕ × ℤ × Address := (o.id, o.price, o.maker)

/-- `os'` are some of the orders `os`, in the same order and with smaller positive amounts. -/
structure Thinned (os os' : List (Order Address)) : Prop where
  keys : (os'.map Order.key).Sublist (os.map Order.key)
  reduced : ∀ o' ∈ os', ∃ o ∈ os, o'.key = o.key ∧ 0 < o'.amount ∧ o'.amount ≤ o.amount

theorem Thinned.of_sublist (sub : os'.Sublist os) (pos : ∀ o ∈ os, 0 < o.amount) :
    Thinned os os' where
  keys := sub.map _
  reduced o ho := ⟨o, sub.subset ho, rfl, pos o (sub.subset ho), le_rfl⟩

theorem Thinned.append {os₁ os₁' os₂ os₂' : List (Order Address)} (first : Thinned os₁ os₁')
    (second : Thinned os₂ os₂') : Thinned (os₁ ++ os₂) (os₁' ++ os₂') where
  keys := by
    rw [List.map_append, List.map_append]
    exact first.keys.append second.keys
  reduced o ho := by
    rcases List.mem_append.1 ho with ho | ho
    · obtain ⟨o₀, mem, facts⟩ := first.reduced o ho
      exact ⟨o₀, List.mem_append_left _ mem, facts⟩
    · obtain ⟨o₀, mem, facts⟩ := second.reduced o ho
      exact ⟨o₀, List.mem_append_right _ mem, facts⟩

theorem thinned_left {q : Quote} (nonneg : 0 ≤ q.filled) (le : q.filled ≤ o.amount) :
    Thinned [o] (Side.left o q).toList := by
  unfold Side.left
  split_ifs with spent
  · exact ⟨List.nil_sublist _, fun _ h => (nomatch h)⟩
  · refine ⟨List.Sublist.refl _, fun _ ho' => ⟨o, .head _, ?_⟩⟩
    obtain rfl := List.mem_singleton.1 ho'
    exact ⟨rfl, by simp only; omega, by simp only; omega⟩

theorem thinned_rest {amm : Address} (buyA : Bool) (makerFeeBps : ℤ) (valid : ∀ o ∈ os, o.Valid amm)
    (remaining : ℤ) : Thinned os ((side buyA makerFeeBps).rest remaining os) := by
  induction os generalizing remaining with
  | nil => exact ⟨List.Sublist.refl _, fun _ h => (nomatch h)⟩
  | cons o _ ih =>
    by_cases pos : 0 < remaining
    · rw [Side.rest_cons pos]
      have able := side_fillable_nonneg (valid o (.head _)) buyA makerFeeBps
      have rest := ih (fun o ho => valid o (.tail _ ho))
      cases buyA with
      | true => exact (thinned_left (le_min pos.le able) (min_le_right _ _)).append (rest _)
      | false =>
        have bounds := bidFill_bounds (valid o (.head _)) (le_min pos.le able) (min_le_right _ _)
        exact (thinned_left bounds.1 bounds.2).append (rest _)
    · rw [Side.rest_of_nonpos pos]
      exact .of_sublist (List.Sublist.refl _) fun o ho => (valid o ho).amount_pos

theorem Thinned.pairwise {R : ℕ × ℤ × Address → ℕ × ℤ × Address → Prop} (thin : Thinned os os')
    (sorted : os.Pairwise fun a b => R a.key b.key) : os'.Pairwise fun a b => R a.key b.key := by
  rw [← List.pairwise_map] at sorted ⊢
  exact sorted.sublist thin.keys

theorem Thinned.ids (thin : Thinned os os') : (os'.map Order.id).Sublist (os.map Order.id) := by
  have := thin.keys.map Prod.fst
  rwa [List.map_map, List.map_map] at this

theorem Thinned.valid {amm : Address} (thin : Thinned os os') (valid : ∀ o ∈ os, o.Valid amm) :
    ∀ o ∈ os', o.Valid amm := by
  intro o' ho'
  obtain ⟨o, mem, key, pos, -⟩ := thin.reduced o' ho'
  obtain ⟨-, price, maker⟩ : o'.id = o.id ∧ o'.price = o.price ∧ o'.maker = o.maker := by
    simpa [Order.key] using key
  exact ⟨price ▸ (valid o mem).price_pos, pos, maker ▸ (valid o mem).maker⟩

theorem Thinned.worth {amm : Address} (thin : Thinned os os') (valid : ∀ o ∈ os, o.Valid amm)
    (worth : ∀ o ∈ os, IsI128 (o.amount * o.price)) : ∀ o ∈ os', IsI128 (o.amount * o.price) := by
  intro o' ho'
  obtain ⟨o, mem, key, pos, le⟩ := thin.reduced o' ho'
  obtain ⟨-, price, -⟩ : o'.id = o.id ∧ o'.price = o.price ∧ o'.maker = o.maker := by
    simpa [Order.key] using key
  have pricePos := (valid o mem).price_pos
  have bound : o'.amount * o.price ≤ o.amount * o.price :=
    mul_le_mul_of_nonneg_right le pricePos.le
  have nonneg : 0 ≤ o'.amount * o.price := mul_nonneg pos.le pricePos.le
  rw [price]
  exact ⟨by linarith, bound.trans_lt (worth o mem).2⟩

/-! ## The invariant -/

/-- What holds of the book and of the pool's constants in every reachable state. -/
structure Listed (amm : Address) (w : World Address) : Prop where
  bids : w.bids.Pairwise BidBefore
  asks : w.asks.Pairwise AskBefore
  ids : ((w.bids ++ w.asks).map Order.id).Nodup
  valid : ∀ o ∈ w.bids ++ w.asks, o.Valid amm
  worth : ∀ o ∈ w.bids, IsI128 (o.amount * o.price)
  pool : ∃ pool, w.pool = some pool ∧ pool.tokenA ≠ pool.tokenB ∧
    0 ≤ pool.lpFeeBps ∧ 0 ≤ pool.makerFeeBps ∧ ∀ o ∈ w.bids ++ w.asks, o.id < pool.nextOrderId

/-- The constants of a pool, which no call changes. -/
def SameConstants (pool pool' : PoolState Address) : Prop :=
  pool'.tokenA = pool.tokenA ∧ pool'.tokenB = pool.tokenB ∧ pool'.lpFeeBps = pool.lpFeeBps ∧
    pool'.makerFeeBps = pool.makerFeeBps

variable {amm : Address} {w w' : World Address}

theorem Listed.valid_book (listed : Listed amm w) (buyA : Bool) :
    ∀ o ∈ book buyA w, o.Valid amm := by
  intro o ho
  refine listed.valid o (List.mem_append.2 ?_)
  cases buyA with
  | true => exact .inr ho
  | false => exact .inl ho

theorem Listed.thin {pool' : PoolState Address} (listed : Listed amm w) (hpool : w.pool = some pool)
    (hpool' : w'.pool = some pool') (same : SameConstants pool pool')
    (next : pool'.nextOrderId = pool.nextOrderId) (bids : Thinned w.bids w'.bids)
    (asks : Thinned w.asks w'.asks) : Listed amm w' := by
  have both := bids.append asks
  refine ⟨bids.pairwise (R := fun a b => b.2.1 < a.2.1 ∨ a.2.1 = b.2.1 ∧ a.1 < b.1) listed.bids,
    asks.pairwise (R := fun a b => a.2.1 < b.2.1 ∨ a.2.1 = b.2.1 ∧ a.1 < b.1) listed.asks,
    listed.ids.sublist both.ids, both.valid listed.valid, ?_, pool', hpool', ?_⟩
  · exact bids.worth (fun o ho => listed.valid o (List.mem_append_left _ ho)) listed.worth
  · obtain ⟨p, hp, _, _, _, below⟩ := listed.pool
    obtain rfl := Option.mem_unique hpool hp
    obtain ⟨tokenA, tokenB, lp, maker⟩ := same
    refine ⟨by rwa [tokenA, tokenB], by rwa [lp], by rwa [maker], fun o' ho' => ?_⟩
    have : o'.id ∈ (w.bids ++ w.asks).map Order.id :=
      both.ids.subset (List.mem_map_of_mem ho')
    obtain ⟨o, mem, eq⟩ := List.mem_map.1 this
    rw [next, ← eq]
    exact below o mem

theorem Listed.thinned_bids (listed : Listed amm w) (sub : os.Sublist w.bids) : Thinned w.bids os :=
  .of_sublist sub fun o ho => (listed.valid o (List.mem_append_left _ ho)).amount_pos

theorem Listed.thinned_asks (listed : Listed amm w) (sub : os.Sublist w.asks) : Thinned w.asks os :=
  .of_sublist sub fun o ho => (listed.valid o (List.mem_append_right _ ho)).amount_pos

theorem sorted_insertBid (sorted : os.Pairwise BidBefore) (newest : ∀ o ∈ os, o.id < order.id) :
    (insertBid os order).Pairwise BidBefore := by
  refine pairwise_insertIdx_findIdx sorted (fun o ho h => ?_) (fun o ho h => ?_)
    fun a b before h => ?_
  · have := of_decide_eq_false h
    have := newest o ho
    unfold BidBefore
    omega
  · exact .inl (of_decide_eq_true h)
  · have := of_decide_eq_true h
    unfold BidBefore at before
    exact decide_eq_true (by omega)

theorem sorted_insertAsk (sorted : os.Pairwise AskBefore) (newest : ∀ o ∈ os, o.id < order.id) :
    (insertAsk os order).Pairwise AskBefore := by
  refine pairwise_insertIdx_findIdx sorted (fun o ho h => ?_) (fun o ho h => ?_)
    fun a b before h => ?_
  · have := of_decide_eq_false h
    have := newest o ho
    unfold AskBefore
    omega
  · exact .inl (of_decide_eq_true h)
  · have := of_decide_eq_true h
    unfold AskBefore at before
    exact decide_eq_true (by omega)

theorem addOrder_perm (order : Order Address) (w : World Address) :
    ((addOrder order w).bids ++ (addOrder order w).asks).Perm (order :: (w.bids ++ w.asks)) := by
  unfold addOrder
  split_ifs
  · exact (perm_insertIdx_findIdx _ order w.bids).append_right _
  · exact ((perm_insertIdx_findIdx _ order w.asks).append_left _).trans List.perm_middle

theorem pool_addOrder (order : Order Address) (w : World Address) :
    (addOrder order w).pool = w.pool := by
  unfold addOrder
  split_ifs <;> rfl

theorem Listed.place {tokens : Tokens Address} (listed : Listed amm w) (hpool : w.pool = some pool)
    (valid : order.Valid amm) (id : order.id = pool.nextOrderId)
    (worth : order.isBid = true → IsI128 (order.amount * order.price)) :
    Listed amm (addOrder order { w with
      pool := some { pool with nextOrderId := pool.nextOrderId + 1 }, tokens }) := by
  obtain ⟨p, hp, distinct, lpFee, makerFee, below⟩ := listed.pool
  obtain rfl := Option.mem_unique hpool hp
  have perm := addOrder_perm order { w with
    pool := some { pool with nextOrderId := pool.nextOrderId + 1 }, tokens }
  have fresh : order.id ∉ (w.bids ++ w.asks).map Order.id := by
    intro mem
    obtain ⟨o, ho, _⟩ := List.mem_map.1 mem
    have := below o ho
    omega
  refine ⟨?_, ?_, ?_, ?_, ?_, ?_⟩
  · unfold addOrder
    split_ifs
    · exact sorted_insertBid listed.bids fun o ho => id ▸ below o (List.mem_append_left _ ho)
    · exact listed.bids
  · unfold addOrder
    split_ifs
    · exact listed.asks
    · exact sorted_insertAsk listed.asks fun o ho => id ▸ below o (List.mem_append_right _ ho)
  · rw [(perm.map Order.id).nodup_iff]
    exact List.nodup_cons.2 ⟨fresh, listed.ids⟩
  · intro o ho
    rcases List.mem_cons.1 (perm.mem_iff.1 ho) with rfl | ho
    · exact valid
    · exact listed.valid o ho
  · intro o ho
    unfold addOrder at ho
    split_ifs at ho with isBid
    · rcases List.mem_cons.1 ((perm_insertIdx_findIdx _ order w.bids).mem_iff.1 ho) with rfl | ho
      · exact worth isBid
      · exact listed.worth o ho
    · exact listed.worth o ho
  · refine ⟨_, pool_addOrder _ _, distinct, lpFee, makerFee, fun o ho => ?_⟩
    rcases List.mem_cons.1 (perm.mem_iff.1 ho) with rfl | ho
    · exact id ▸ Nat.lt_succ_self _
    · exact (below o ho).trans (Nat.lt_succ_self _)

theorem Initial.listed (init : Initial amm w) : Listed amm w := by
  obtain ⟨_, _, _, _, _, _, distinct, -, h⟩ := init
  obtain ⟨lpFee, makerFee, rfl⟩ := initializePool_ok h
  exact ⟨.nil, .nil, List.nodup_nil, fun _ h => (nomatch h), fun _ h => (nomatch h),
    _, rfl, distinct, lpFee, makerFee, fun _ h => (nomatch h)⟩

variable [DecidableEq Address]

theorem Listed.exec {env : Env amm} {c : Call Address} (listed : Listed amm w)
    (hpool : w.pool = some pool) (h : exec env w c = .ok w') :
    Listed amm w' ∧ ∃ pool', w'.pool = some pool' ∧ SameConstants pool pool' := by
  have bids := listed.thinned_bids (List.Sublist.refl _)
  have asks := listed.thinned_asks (List.Sublist.refl _)
  cases c with
  | deposit =>
    obtain ⟨_, h⟩ := map_snd_ok_iff.1 h
    obtain ⟨tokens, -, -, -, -, -, -, -, rfl⟩ := deposit_ok hpool h
    exact ⟨listed.thin hpool rfl ⟨rfl, rfl, rfl, rfl⟩ rfl bids asks, _, rfl, rfl, rfl, rfl, rfl⟩
  | withdraw =>
    obtain ⟨⟨_, _⟩, h⟩ := map_snd_ok_iff.1 h
    obtain ⟨tokens, -, -, -, -, -, -, -, -, -, -, -, rfl⟩ := withdraw_ok hpool h
    exact ⟨listed.thin hpool rfl ⟨rfl, rfl, rfl, rfl⟩ rfl bids asks, _, rfl, rfl, rfl, rfl, rfl⟩
  | placeOrder =>
    obtain ⟨_, h⟩ := map_snd_ok_iff.1 h
    obtain ⟨tokens, amount, price, maker, id, worth, -, rfl⟩ := placeOrder_ok hpool h
    exact ⟨listed.place hpool ⟨price, amount, maker⟩ id worth, _, pool_addOrder _ _,
      rfl, rfl, rfl, rfl⟩
  | cancelOrder =>
    obtain ⟨tokens, o, -, -, ⟨-, -, rfl⟩ | ⟨-, -, rfl⟩⟩ := cancelOrder_ok hpool h
    · exact ⟨listed.thin hpool rfl ⟨rfl, rfl, rfl, rfl⟩ rfl
        (listed.thinned_bids List.eraseP_sublist) asks, _, rfl, rfl, rfl, rfl, rfl⟩
    · exact ⟨listed.thin hpool rfl ⟨rfl, rfl, rfl, rfl⟩ rfl bids
        (listed.thinned_asks List.eraseP_sublist), _, rfl, rfl, rfl, rfl, rfl⟩
  | swap _ buyA out =>
    obtain ⟨_, h⟩ := map_snd_ok_iff.1 h
    obtain ⟨tokens, -, -, -, -, -, -, -, -, rfl⟩ := swap_ok hpool h
    have thin := thinned_rest buyA pool.makerFeeBps (listed.valid_book buyA) out
    have same (input output : ℤ) : SameConstants pool (trade buyA input output pool) ∧
        (trade buyA input output pool).nextOrderId = pool.nextOrderId := by
      cases buyA <;> exact ⟨⟨rfl, rfl, rfl, rfl⟩, rfl⟩
    refine ⟨listed.thin hpool rfl (same _ _).1 (same _ _).2 ?_ ?_, _, rfl, (same _ _).1⟩
    · cases buyA with
      | true => exact bids
      | false => exact thin
    · cases buyA with
      | true => exact thin
      | false => exact asks

theorem Listed.step {action : Action amm} (listed : Listed amm w) (h : Step amm w action w') :
    Listed amm w' := by
  cases action with
  | call =>
    obtain ⟨_, hpool, -⟩ := listed.pool
    exact (listed.exec hpool h).1
  | external =>
    obtain ⟨-, rfl⟩ := h
    exact ⟨listed.bids, listed.asks, listed.ids, listed.valid, listed.worth, listed.pool⟩

theorem listed_of_reachable (reach : Reachable (Initial amm) (Step amm) w) : Listed amm w :=
  reach.invariant (fun _ init => init.listed) fun _ _ _ listed step => listed.step step

/-! ## Priority -/

/-- The output taken from the order at position `i` of the book. -/
def taken (fills : List (Fill Address)) (i : ℕ) : ℤ := (fills[i]?).elim 0 fun f => f.2.out

/-- The fills are those of the first orders of `os`, and where an order gives anything every order
before it gives all it can. -/
def InPriority (fillable : Order Address → ℤ) (os : List (Order Address))
    (fills : List (Fill Address)) : Prop :=
  fills.map Prod.fst <+: os ∧
    ∀ i j o, i < j → os[i]? = some o → 0 < taken fills j → taken fills i = fillable o

omit [DecidableEq Address] in
theorem Side.fills_inPriority (s : Side Address) (remaining : ℤ) (os : List (Order Address)) :
    InPriority s.fillable os (s.fills remaining os) := by
  have orders := allocation_orders s.fillable remaining os
  have firsts : (s.fills remaining os).map Prod.fst =
      (allocation s.fillable remaining os).map Prod.fst := by
    simp [Side.fills]
  refine ⟨firsts ▸ orders, fun i j o lt ho positive => ?_⟩
  have hj : j < (allocation s.fillable remaining os).length := by
    by_contra beyond
    have none : (s.fills remaining os)[j]? = none := by
      simpa [Side.fills] using beyond
    simp [taken, none] at positive
  have hi : i < (allocation s.fillable remaining os).length := lt.trans hj
  have full := List.pairwise_iff_getElem.1 (allocation_priority remaining os) i j hi hj lt
  have same : ((allocation s.fillable remaining os)[i]).1 = o := by
    have at_i := orders.getElem (i := i) (by simpa using hi)
    have := List.getElem?_eq_some_iff.1 ho
    obtain ⟨_, eq⟩ := this
    rw [← eq, ← at_i, List.getElem_map]
  simp only [taken, Side.fills, List.getElem?_map, List.getElem?_eq_getElem hi, Option.map_some,
    Option.elim_some, s.out_fill]
  rw [full, same]

/-- In every reachable state the book is sorted by price, then age, with distinct ids below the next
one and asks of positive amount; and every swap fills it in that order, taking nothing from an order
while one before it has output left to give. -/
theorem price_time_priority (reach : Reachable (Initial amm) (Step amm) w) :
    (∃ pool, w.pool = some pool ∧
      w.bids.Pairwise (fun a b => b.price ≤ a.price ∧ (a.price = b.price → a.id < b.id)) ∧
      w.asks.Pairwise (fun a b => a.price ≤ b.price ∧ (a.price = b.price → a.id < b.id)) ∧
      ((w.bids ++ w.asks).map Order.id).Nodup ∧
      (∀ o ∈ w.bids ++ w.asks, o.id < pool.nextOrderId) ∧ ∀ o ∈ w.asks, 0 < o.amount) ∧
    ∀ (env : Env amm) (taker : Address) (buyA : Bool) (out inMax : ℤ)
      (report : SwapReport Address) (w' : World Address),
      swap env taker buyA out inMax w = .ok (report, w') →
        InPriority (if buyA then fun o => o.amount else bidWorth) (book buyA w) report.fills := by
  have listed := listed_of_reachable reach
  obtain ⟨pool, hpool, -, -, -, below⟩ := listed.pool
  refine ⟨⟨pool, hpool, listed.bids.imp fun {a b} before => ?_,
    listed.asks.imp fun {a b} before => ?_, listed.ids, below,
    fun o ho => (listed.valid o (List.mem_append_right _ ho)).amount_pos⟩, ?_⟩
  · unfold BidBefore at before
    omega
  · unfold AskBefore at before
    omega
  · intro env taker buyA out inMax report w' h
    obtain ⟨_, -, fills, -⟩ := swap_ok hpool h
    rw [fills]
    have priority := (side buyA pool.makerFeeBps).fills_inPriority out (book buyA w)
    cases buyA with
    | true | false => exact priority

/-! ## A book of three orders -/

def everyoneSigns : Env (0 : ℕ) := ⟨1, fun a => a != 0, zero_unsigned⟩

def startTokens : Tokens ℕ := fun _ holder => if holder = 1 ∨ holder = 2 then 100000 else 0

/-- Accounts 1 and 2 bid for token 8, at 3 and at 1.5 of token 9, and account 2 asks 5 for it. -/
def threeOrders : Outcome Error (World ℕ) := do
  let w ← initializePool 3 8 9 30 10 { tokens := startTokens }
  let w ← exec everyoneSigns w (.placeOrder 2 true 1500000 2)
  let w ← exec everyoneSigns w (.placeOrder 1 true 3000000 1)
  exec everyoneSigns w (.placeOrder 2 false 5000000 4)

theorem threeOrders_guarded {cond : World ℕ → Action (0 : ℕ) → Prop}
    (places : ∀ w env maker isBid price amount,
      cond w (.call env (.placeOrder maker isBid price amount)))
    {w : World ℕ} (h : threeOrders = .ok w) : Reachable (Initial 0) (Guarded cond (Step 0)) w := by
  simp only [threeOrders, bind_ok_iff] at h
  obtain ⟨w₁, start, _, lowBid, _, highBid, ask⟩ := h
  have first : Reachable (Initial 0) (Guarded cond (Step 0)) w₁ :=
    .start ⟨3, 8, 9, 30, 10, startTokens, by decide, fun _ => le_rfl, start⟩
  have second := first.next_guarded (step_call lowBid) (places _ _ _ _ _ _)
  have third := second.next_guarded (step_call highBid) (places _ _ _ _ _ _)
  exact third.next_guarded (step_call ask) (places _ _ _ _ _ _)

theorem threeOrders_reachable {w : World ℕ} (h : threeOrders = .ok w) :
    Reachable (Initial 0) (Step 0) w :=
  (threeOrders_guarded (fun _ _ _ _ _ _ => trivial) h :
    Reachable (Initial 0) (Guarded (fun _ _ => True) (Step 0)) w).of_guarded

/-- Selling for 5 of token 9 takes 3 from the better bid, though it is younger, and then 2. -/
theorem threeOrders_priority :
    ∃ (w w' : World ℕ) (report : SwapReport ℕ), threeOrders = .ok w ∧
      swap everyoneSigns 1 false 5 100 w = .ok (report, w') ∧
      report.fills.map (fun f => (f.1.id, f.2.out)) = [(2, 3), (1, 2)] ∧
      InPriority bidWorth w.bids report.fills := by
  obtain ⟨w, hw, r, hr, fills⟩ : ∃ w, threeOrders = .ok w ∧
      ∃ r, swap everyoneSigns 1 false 5 100 w = .ok r ∧
        r.1.fills.map (fun f => (f.1.id, f.2.out)) = [(2, 3), (1, 2)] := by
    decide
  exact ⟨w, r.2, r.1, hw, hr, fills,
    (price_time_priority (threeOrders_reachable hw)).2 _ _ _ _ _ _ _ hr⟩

end HybridAmmLob
