import Perigee.HybridAmmLob.Contract
import Perigee.Arith.Rounding

/-!
# What a matching loop does

`allocation` is price-time priority in its own terms: the output asked for is taken from the orders
from the left, from each as much as it can give.  A matching loop that returns has filled the
allocation (`matchLoop_filled`).
-/

namespace HybridAmmLob

open Soroban EditedList

variable {Address : Type} {remaining makerFeeBps : ℤ} {o : Order Address} {q : Quote}

/-! ## Allocation by priority -/

/-- How much output each order gives, when `remaining` is asked for. -/
def allocation (fillable : Order Address → ℤ) : ℤ → List (Order Address) → List (Order Address × ℤ)
  | _, [] => []
  | remaining, o :: os =>
    if 0 < remaining then
      (o, min remaining (fillable o)) ::
        allocation fillable (remaining - min remaining (fillable o)) os
    else []

variable {fillable : Order Address → ℤ}

theorem allocation_of_nonpos (h : ¬ 0 < remaining) (os : List (Order Address)) :
    allocation fillable remaining os = [] := by
  cases os with
  | nil => rfl
  | cons => simp only [allocation, h, if_false]

theorem allocation_cons (h : 0 < remaining) (o : Order Address) (os : List (Order Address)) :
    allocation fillable remaining (o :: os) =
      (o, min remaining (fillable o)) ::
        allocation fillable (remaining - min remaining (fillable o)) os := by
  simp only [allocation, h, if_true]

theorem allocation_orders (fillable : Order Address → ℤ) (remaining : ℤ)
    (os : List (Order Address)) :
    (allocation fillable remaining os).map Prod.fst <+: os := by
  induction os generalizing remaining with
  | nil => exact List.prefix_refl _
  | cons o _ ih =>
    by_cases h : 0 < remaining
    · rw [allocation_cons h]
      exact (List.prefix_cons_inj o).2 (ih _)
    · rw [allocation_of_nonpos h]
      exact List.nil_prefix

theorem allocation_priority (remaining : ℤ) (os : List (Order Address)) :
    (allocation fillable remaining os).Pairwise fun a _ => a.2 = fillable a.1 := by
  induction os generalizing remaining with
  | nil => exact .nil
  | cons o _ ih =>
    by_cases h : 0 < remaining
    · rw [allocation_cons h]
      refine .cons (fun b hb => ?_) (ih _)
      by_contra partly
      have exhausted : ¬ 0 < remaining - min remaining (fillable o) := by
        simp only at partly
        omega
      rw [allocation_of_nonpos exhausted] at hb
      cases hb
    · rw [allocation_of_nonpos h]
      exact .nil

theorem allocation_bounds {os : List (Order Address)} (nonneg : ∀ o ∈ os, 0 ≤ fillable o)
    {a : Order Address × ℤ} (ha : a ∈ allocation fillable remaining os) :
    a.1 ∈ os ∧ 0 ≤ a.2 ∧ a.2 ≤ fillable a.1 := by
  induction os generalizing remaining with
  | nil => cases ha
  | cons o _ ih =>
    by_cases h : 0 < remaining
    · rw [allocation_cons h] at ha
      rcases List.mem_cons.1 ha with rfl | ha
      · have := nonneg o (.head _)
        exact ⟨.head _, by simp only; omega, by simp only; omega⟩
      · obtain ⟨mem, bounds⟩ := ih (fun o ho => nonneg o (.tail _ ho)) ha
        exact ⟨.tail _ mem, bounds⟩
    · rw [allocation_of_nonpos h] at ha
      cases ha

/-! ## Sides of the book -/

/-- How the orders of one side are filled: the output an order can give, and the fill by which it
gives the output `t`. -/
structure Side (Address : Type) where
  fillable : Order Address → ℤ
  fill : Order Address → ℤ → Quote
  out_fill : ∀ o t, (fill o t).out = t

/-- The token B a bid is worth at its price. -/
def bidWorth (o : Order Address) : ℤ := (o.amount * o.price).tdiv priceScale

def askSide (makerFeeBps : ℤ) : Side Address where
  fillable o := o.amount
  fill o t :=
    { out := t
      cost := (t * o.price).tdiv priceScale +
        ((t * o.price).tdiv priceScale * makerFeeBps).tdiv 10000
      filled := t }
  out_fill _ _ := rfl

def bidSide : Side Address where
  fillable := bidWorth
  fill o t :=
    { out := t
      cost := (t * priceScale).tdiv o.price
      filled := (t * priceScale).tdiv o.price }
  out_fill _ _ := rfl

def side (buyA : Bool) (makerFeeBps : ℤ) : Side Address :=
  if buyA then askSide makerFeeBps else bidSide

theorem askQuote_ok (h : askQuote makerFeeBps remaining o = .ok q) :
    q = (askSide makerFeeBps).fill o (min remaining o.amount) := by
  simp only [askQuote, ok_iff] at h
  obtain ⟨_, ⟨-, rfl⟩, _, ⟨-, -, rfl⟩, _, ⟨-, rfl⟩, _, ⟨-, -, rfl⟩, _, ⟨-, rfl⟩, rfl⟩ := h
  rfl

theorem bidQuote_ok (h : bidQuote makerFeeBps remaining o = .ok q) :
    q = bidSide.fill o (min remaining (bidWorth o)) := by
  simp only [bidQuote, ok_iff] at h
  obtain ⟨_, ⟨-, rfl⟩, _, ⟨-, -, rfl⟩, _, ⟨-, rfl⟩, _, ⟨-, -, rfl⟩, _, ⟨-, rfl⟩, _, -, rfl⟩ := h
  rfl

namespace Side

variable {remaining : ℤ}

def fills (s : Side Address) (remaining : ℤ) (os : List (Order Address)) : List (Fill Address) :=
  (allocation s.fillable remaining os).map fun a => (a.1, s.fill a.1 a.2)

def left (o : Order Address) (q : Quote) : Option (Order Address) :=
  if o.amount - q.filled = 0 then none else some { o with amount := o.amount - q.filled }

/-- The orders left after the allocation is filled. -/
def rest (s : Side Address) : ℤ → List (Order Address) → List (Order Address)
  | _, [] => []
  | remaining, o :: os =>
    if 0 < remaining then
      (left o (s.fill o (min remaining (s.fillable o)))).toList ++
        s.rest (remaining - min remaining (s.fillable o)) os
    else o :: os

variable {s : Side Address}

theorem fills_of_nonpos (h : ¬ 0 < remaining) (os : List (Order Address)) :
    s.fills remaining os = [] := by
  rw [fills, allocation_of_nonpos h, List.map_nil]

theorem rest_of_nonpos (h : ¬ 0 < remaining) (os : List (Order Address)) :
    s.rest remaining os = os := by
  cases os with
  | nil => rfl
  | cons => simp only [rest, h, if_false]

theorem fills_cons (h : 0 < remaining) (o : Order Address) (os : List (Order Address)) :
    s.fills remaining (o :: os) =
      (o, s.fill o (min remaining (s.fillable o))) ::
        s.fills (remaining - min remaining (s.fillable o)) os := by
  rw [fills, allocation_cons h, List.map_cons, fills]

theorem rest_cons (h : 0 < remaining) (o : Order Address) (os : List (Order Address)) :
    s.rest remaining (o :: os) =
      (left o (s.fill o (min remaining (s.fillable o)))).toList ++
        s.rest (remaining - min remaining (s.fillable o)) os := by
  simp only [rest, h, if_true]

end Side

/-! ## The loop -/

def totalOut (fills : List (Fill Address)) : ℤ := (fills.map fun f => f.2.out).sum

def totalCost (fills : List (Fill Address)) : ℤ := (fills.map fun f => f.2.cost).sum

variable [DecidableEq Address] {m : Matching Address} {p p' : Progress Address}

/-- The variables of a matching loop change from `p` to `p'` by the fills `fs`. -/
structure Filled (m : Matching Address) (p p' : Progress Address) (fs : List (Fill Address)) :
    Prop where
  fills : p'.fills = p.fills ++ fs
  remainingOut : p'.remainingOut = p.remainingOut - totalOut fs
  totalIn : p'.totalIn = p.totalIn + totalCost fs
  lobFilled : p'.lobFilled = p.lobFilled + totalOut fs
  nonneg : ∀ f ∈ fs, 0 ≤ f.2.out ∧ 0 ≤ f.2.cost
  paid : m.taker ≠ m.amm → (∀ f ∈ fs, f.1.maker ≠ m.amm) → ∀ token,
    p'.tokens token m.amm = p.tokens token m.amm -
      (if token = m.tokenOut then totalOut fs else 0) -
      (if token = m.tokenIn then totalCost fs else 0)

theorem Filled.refl (m : Matching Address) (p : Progress Address) : Filled m p p [] where
  fills := (List.append_nil _).symm
  remainingOut := by simp [totalOut]
  totalIn := by simp [totalCost]
  lobFilled := by simp [totalOut]
  nonneg := by simp
  paid := by simp [totalOut, totalCost]

theorem fillOrder_filled {order : Order Address} {kept : Option (Order Address)}
    (h : fillOrder m order p = .ok (kept, p')) :
    ∃ q, m.quote p.remainingOut order = .ok q ∧ kept = Side.left order q ∧
      Filled m p p' [(order, q)] := by
  simp only [fillOrder, ok_iff] at h
  obtain ⟨q, quoted, _, ⟨-, rfl⟩, _, ⟨-, rfl⟩, _, ⟨-, rfl⟩, _, out, t₂, cost, _, ⟨-, rfl⟩, h⟩ := h
  cases h
  refine ⟨q, quoted, rfl, rfl, ?_, ?_, ?_, ?_, ?_⟩
  · simp [totalOut]
  · simp [totalCost]
  · simp [totalOut]
  · have := (Tokens.transfer_ok_iff.1 out).1
    have := (Tokens.transfer_ok_iff.1 cost).1
    simp_all
  · intro taker maker token
    have maker : m.amm ≠ order.maker := (maker _ (.head _)).symm
    show t₂ token m.amm = _
    rw [Tokens.transfer_apply cost, Tokens.transfer_apply out]
    simp [totalOut, totalCost, taker.symm, maker]

theorem Filled.trans {p₁ p₂ p₃ : Progress Address} {fs gs : List (Fill Address)}
    (first : Filled m p₁ p₂ fs) (second : Filled m p₂ p₃ gs) : Filled m p₁ p₃ (fs ++ gs) where
  fills := by rw [second.fills, first.fills, List.append_assoc]
  remainingOut := by
    rw [second.remainingOut, first.remainingOut]
    simp only [totalOut, List.map_append, List.sum_append]
    ring
  totalIn := by
    rw [second.totalIn, first.totalIn]
    simp only [totalCost, List.map_append, List.sum_append]
    ring
  lobFilled := by
    rw [second.lobFilled, first.lobFilled]
    simp only [totalOut, List.map_append, List.sum_append]
    ring
  nonneg f hf := (List.mem_append.1 hf).elim (first.nonneg f) (second.nonneg f)
  paid := by
    intro taker makers _
    rw [second.paid taker (fun f hf => makers f (List.mem_append_right _ hf)),
      first.paid taker (fun f hf => makers f (List.mem_append_left _ hf))]
    simp only [totalOut, totalCost, List.map_append, List.sum_append]
    split_ifs <;> ring

/-- A matching loop whose quotes are those of the side `s` fills the allocation of `s`. -/
theorem matchLoop_filled {s : Side Address} {orders orders' : List (Order Address)}
    (quotes : ∀ {remaining o q}, m.quote remaining o = .ok q →
      q = s.fill o (min remaining (s.fillable o)))
    (h : matchLoop m orders p = .ok (orders', p')) :
    orders' = s.rest p.remainingOut orders ∧ Filled m p p' (s.fills p.remainingOut orders) := by
  obtain ⟨_, rfl, swept⟩ := swept_of_sweep [] le_rfl h
  clear h
  induction swept with
  | nil => exact ⟨rfl, .refl m _⟩
  | stop stopped =>
    have exhausted := of_decide_eq_false stopped
    rw [Side.rest_of_nonpos exhausted, Side.fills_of_nonpos exhausted]
    exact ⟨rfl, .refl m _⟩
  | visit going visited _ ih =>
    have pos := of_decide_eq_true going
    obtain ⟨q, quoted, rfl, filled⟩ := fillOrder_filled visited
    obtain rfl := quotes quoted
    have remaining := filled.remainingOut
    simp only [totalOut, List.map_cons, List.map_nil, List.sum_cons, List.sum_nil, add_zero,
      s.out_fill] at remaining
    obtain ⟨rfl, later⟩ := ih
    rw [remaining] at later
    rw [Side.rest_cons pos, Side.fills_cons pos, remaining]
    exact ⟨rfl, filled.trans later⟩

end HybridAmmLob
