import Perigee.BasketVault.Contract

/-!
# The weights of a basket

`add_component` compares each new weight with the cap on a single one and never with what the other
components have left of 10 000, so a basket can be built that owes more than it is given.
`AddsWithin` excludes exactly the additions that over-commit a basket (`weights_within_iff`).
-/

namespace BasketVault

open Soroban

section Contract

variable {Address : Type} {this : Address} {env : Env this} {w w' : World Address}
  {manager : Address} {basket : ℕ} {count : ℕ} {assets : ℤ} {indices : List ℕ}
  {amounts : List (Address × ℤ)} {targetWeights : List ℤ} {action : Env this × Call Address}

def weightAt (w : World Address) (basket index : ℕ) : ℤ :=
  (w.components.lookup (basket, index)).elim 0 Component.weightBps

def weightSum (w : World Address) (basket : ℕ) : ℤ :=
  ((List.range (componentCount w basket)).map (weightAt w basket)).sum

/-- The weights of every basket sum to at most 10 000, and the components owed for some value to at
most that value. -/
def NotOvercommitted (w : World Address) : Prop :=
  ∀ basket, weightSum w basket ≤ bpsDenominator ∧
    ∀ assets amounts, 0 < assets → componentsFor basket assets w = .ok amounts →
      (amounts.map Prod.snd).sum ≤ assets

/-- A component is added with a weight that the others have left of 10 000. -/
def AddsWithin (w : World Address) (action : Env this × Call Address) : Prop :=
  match action.2 with
  | .addComponent _ basket _ weightBps _ => weightSum w basket + weightBps ≤ bpsDenominator
  | _ => True

instance (w : World Address) :
    DecidablePred fun action : Env this × Call Address => AddsWithin w action
  | (_, .addComponent _ basket _ weightBps _) =>
      inferInstanceAs (Decidable (weightSum w basket + weightBps ≤ bpsDenominator))
  | (_, .createBasket ..) | (_, .recordHolding ..) | (_, .setPrice ..) | (_, .rebalanceTo ..)
  | (_, .setGlobalConfig ..) => .isTrue trivial

def Weighted (w : World Address) : Prop :=
  ∀ key component, w.components.lookup key = some component → 0 ≤ component.weightBps

/-! ## The loops -/

theorem occupied_ok_iff :
    occupied w basket = .ok count ↔
      componentCount w basket ≠ 0 ∧ componentCount w basket = count := by
  simp only [occupied, ok_iff, exists_and_left]
  exact ⟨fun ⟨h, _, e⟩ => ⟨h, e⟩, fun ⟨h, e⟩ => ⟨h, (), e⟩⟩

theorem componentsFor_legs (weighted : Weighted w) (positive : 0 < assets)
    (h : indices.foldlM (fun (out : List (Address × ℤ)) index => do
      let component ← getComponent w basket index
      let amount ← mulBpsFloor assets component.weightBps
      pure (out ++ [(component.asset, amount)])) [] = .ok amounts) :
    (amounts.map Prod.snd).sum * bpsDenominator ≤
      assets * (indices.map (weightAt w basket)).sum := by
  have run := Run.of_foldlM (fun _ _ _ step => step) h
  clear h
  induction run with
  | nil => simp
  | @snoc _ _ _ index _ last ih =>
    simp only [getComponent, mulBpsFloor, ok_iff] at last
    obtain ⟨component, hc, _, ⟨_, ⟨-, rfl⟩, -, -, rfl⟩, rfl⟩ := last
    have weight : weightAt w basket index = component.weightBps := by
      rw [weightAt, hc, Option.elim_some]
    have leg : (assets * component.weightBps).tdiv bpsDenominator * bpsDenominator ≤
        assets * component.weightBps := by
      have nonneg := mul_nonneg positive.le (weighted _ component hc)
      rw [Int.tdiv_eq_ediv_of_nonneg nonneg]
      exact Int.ediv_mul_le _ (by decide)
    simp only [List.map_append, List.map_cons, List.map_nil, List.sum_append, List.sum_singleton,
      weight]
    rw [add_mul, mul_add]
    exact add_le_add ih leg

theorem notOvercommitted_iff (weighted : Weighted w) :
    NotOvercommitted w ↔ ∀ basket, weightSum w basket ≤ bpsDenominator := by
  refine ⟨fun h basket => (h basket).1, fun within basket => ⟨within basket, fun _ _ _ h => ?_⟩⟩
  simp only [componentsFor, ok_iff, occupied_ok_iff, not_le] at h
  obtain ⟨_, positive, _, ⟨-, rfl⟩, h⟩ := h
  have legs := componentsFor_legs weighted positive h
  have whole := mul_le_mul_of_nonneg_left (within basket) positive.le
  exact le_of_mul_le_mul_right (legs.trans whole) (by decide)

/-- A loop that adds up terms within a cap succeeds where all terms are, and the sum fits. -/
theorem sumWithin_ok_iff (term : ℕ → ℤ) (cap : ℤ) {start total : ℤ} (nonneg : 0 ≤ start)
    (fits : total < 2 ^ 127) (indices : List ℕ) :
    indices.foldlM (fun sum index => do
        reject (term index < 0 ∨ cap < term index) Error.weightTooLarge
        checkedI128 (sum + term index) Error.mathOverflow) start = .ok total ↔
      (∀ index ∈ indices, 0 ≤ term index ∧ term index ≤ cap) ∧
        start + (indices.map term).sum = total := by
  induction indices generalizing start with
  | nil => simp [pure_ok_iff]
  | cons index rest ih =>
    rw [List.foldlM_cons, List.forall_mem_cons, List.map_cons, List.sum_cons, ← add_assoc]
    simp only [ok_iff, not_or, not_lt]
    constructor
    · rintro ⟨_, ⟨_, within, -, rfl⟩, h⟩
      obtain ⟨others, sum⟩ := (ih (add_nonneg nonneg within.1)).1 h
      exact ⟨⟨within, others⟩, sum⟩
    · rintro ⟨⟨within, others⟩, sum⟩
      have start' := add_nonneg nonneg within.1
      have rest' : 0 ≤ (rest.map term).sum :=
        List.sum_nonneg (List.forall_mem_map.2 fun i h => (others i h).1)
      have range : IsI128 (start + term index) := ⟨by omega, by omega⟩
      exact ⟨_, ⟨(), within, range, rfl⟩, (ih start').2 ⟨others, sum⟩⟩

theorem sumWeights_ok_iff {maxWeightBps total : ℤ} (fits : total < 2 ^ 127) :
    sumWeights maxWeightBps targetWeights count = .ok total ↔
      (∀ index < count, 0 ≤ targetWeights.getD index 0 ∧
        targetWeights.getD index 0 ≤ maxWeightBps) ∧
      ((List.range count).map fun index => targetWeights.getD index 0).sum = total := by
  have sums := sumWithin_ok_iff (targetWeights.getD · 0) maxWeightBps le_rfl fits (List.range count)
  simp only [List.mem_range, zero_add] at sums
  exact sums

theorem writeWeights_spec (h : indices.foldlM (writeWeight basket targetWeights) w = .ok w') :
    w'.componentCounts = w.componentCounts ∧
      ∀ key, (w'.components.lookup key).map Component.weightBps =
        if key.1 = basket ∧ key.2 ∈ indices then some (targetWeights.getD key.2 0)
        else (w.components.lookup key).map Component.weightBps := by
  have run := Run.of_foldlM (fun _ _ _ step => step) h
  clear h
  induction run with
  | nil => simp
  | @snoc indices _ _ index _ last ih =>
    simp only [writeWeight, ok_iff] at last
    obtain ⟨_, _, rfl⟩ := last
    refine ⟨ih.1, fun key => ?_⟩
    rw [Store.lookup_set]
    by_cases here : key = (basket, index)
    · subst here
      simp
    · rw [if_neg here, ih.2 key]
      have same : (key.1 = basket ∧ key.2 ∈ indices ++ [index]) ↔
          key.1 = basket ∧ key.2 ∈ indices := by
        constructor
        · rintro ⟨own, h⟩
          rcases List.mem_append.1 h with h | h
          · exact ⟨own, h⟩
          · exact absurd (Prod.ext own (List.mem_singleton.1 h)) here
        · exact fun ⟨own, h⟩ => ⟨own, List.mem_append_left _ h⟩
      simp only [same]

/-! ## Every step -/

theorem weightAt_eq (w : World Address) (basket index : ℕ) :
    weightAt w basket index =
      ((w.components.lookup (basket, index)).map Component.weightBps).getD 0 := by
  unfold weightAt
  cases w.components.lookup (basket, index) <;> rfl

theorem weightSum_congr (count : componentCount w' basket = componentCount w basket)
    (weights : ∀ index < componentCount w basket,
      weightAt w' basket index = weightAt w basket index) :
    weightSum w' basket = weightSum w basket := by
  unfold weightSum
  rw [count, List.map_congr_left fun index h => weights index (List.mem_range.1 h)]

variable [DecidableEq Address]

inductive WeightEffect (w w' : World Address) (cond : Prop) : Prop where
  | idle (same : ∀ basket, weightSum w' basket = weightSum w basket) (free : cond)
  | reset (basket : ℕ) (total : ℤ) (within : total ≤ bpsDenominator)
      (here : weightSum w' basket = total)
      (others : ∀ other ≠ basket, weightSum w' other = weightSum w other) (free : cond)
  | add (basket : ℕ) (weightBps : ℤ) (here : weightSum w' basket = weightSum w basket + weightBps)
      (others : ∀ other ≠ basket, weightSum w' other = weightSum w other)
      (free : cond ↔ weightSum w basket + weightBps ≤ bpsDenominator)

theorem step_weights (step : Step this w action w') :
    WeightEffect w w' (AddsWithin w action) ∧ (Weighted w → Weighted w') := by
  obtain ⟨env, call⟩ := action
  change exec env w call = .ok w' at step
  cases call <;>
    simp only [exec, createBasket, recordHolding, setPrice, setGlobalConfig, getComponent,
      map_snd_ok_iff, ok_iff] at step
  case createBasket =>
    obtain ⟨_, _, -, _, -, _, -, _, ⟨-, rfl⟩, -, rfl⟩ := step
    refine ⟨.reset (w.basketCount.getD 0) 0 (by decide) ?_ (fun other ne => ?_) trivial, id⟩
    · rw [weightSum, componentCount, Store.getD_set, if_pos rfl, List.range_zero, List.map_nil,
        List.sum_nil]
    · refine weightSum_congr ?_ fun _ _ => rfl
      rw [componentCount, Store.getD_set, if_neg ne, componentCount]
  case addComponent basket _ _ _ =>
    simp only [addComponent, ok_iff, not_or, not_le]
      at step
    obtain ⟨_, -, _, ⟨-, positive⟩, _, -, _, -, _, -, _, ⟨-, rfl⟩, rfl⟩ := step
    refine ⟨.add basket _ ?_ (fun other ne => ?_) Iff.rfl,
      fun weighted => Store.forall_set weighted positive.le⟩
    · change (List.map _ (List.range ((w.componentCounts.set basket _).getD basket 0))).sum = _
      rw [Store.getD_set, if_pos rfl, List.range_succ, List.map_append, List.sum_append,
        List.map_singleton, List.sum_singleton]
      congr 1
      · refine congrArg List.sum (List.map_congr_left fun index h => ?_)
        have ne : (basket, index) ≠ (basket, componentCount w basket) := by
          simpa using (List.mem_range.1 h).ne
        rw [weightAt, Store.lookup_set_of_ne _ _ ne, weightAt]
      · rw [weightAt, Store.lookup_set_self, Option.elim_some]
    · refine weightSum_congr ?_ fun index _ => ?_
      · rw [componentCount, Store.getD_set, if_neg ne, componentCount]
      · have apart : (other, index) ≠ (basket, componentCount w basket) := fun h =>
          ne (Prod.ext_iff.1 h).1
        rw [weightAt, Store.lookup_set_of_ne _ _ apart, weightAt]
  case recordHolding | setGlobalConfig =>
    obtain ⟨_, -, _, -, rfl⟩ := step
    exact ⟨.idle (fun _ => rfl) trivial, id⟩
  case setPrice =>
    obtain ⟨_, -, _, -, component, hc, rfl⟩ := step
    constructor
    · refine .idle (fun other => weightSum_congr rfl fun i _ => ?_) trivial
      rw [weightAt, Store.lookup_set, weightAt]
      split_ifs with h
      · rw [h, hc, Option.elim_some, Option.elim_some]
      · rfl
    · exact fun weighted => Store.forall_set weighted (weighted _ component hc)
  case rebalanceTo basket _ =>
    simp only [rebalanceTo, ok_iff, occupied_ok_iff, not_not] at step
    obtain ⟨_, -, _, ⟨-, rfl⟩, _, -, _, summed, _, rfl, _, -, _, -, _, -, w₁, written, _,
      ⟨-, rfl⟩, rfl⟩ := step
    obtain ⟨within, whole⟩ := (sumWeights_ok_iff (by decide)).1 summed
    obtain ⟨counts, weights⟩ := writeWeights_spec written
    have count (other : ℕ) : componentCount w₁ other = componentCount w other := by
      rw [componentCount, counts, componentCount]
    refine ⟨.reset basket bpsDenominator le_rfl ?_ (fun other ne => ?_) trivial,
      fun weighted key c h => ?_⟩
    · change weightSum w₁ basket = _
      rw [← whole, weightSum, count]
      refine congrArg List.sum (List.map_congr_left fun index h => ?_)
      rw [weightAt_eq, weights, if_pos ⟨rfl, h⟩, Option.getD_some]
    · refine weightSum_congr (count other) fun index _ => ?_
      rw [weightAt_eq, weights, if_neg fun h => ne h.1, weightAt_eq]
    · have kept := weights key
      rw [h] at kept
      split_ifs at kept with own
      · exact Option.some.inj kept ▸ (within _ (List.mem_range.1 own.2)).1
      · obtain ⟨before, hb, same⟩ := Option.map_eq_some_iff.1 kept.symm
        exact same ▸ weighted key before hb

theorem Weighted.step (weighted : Weighted w) (step : Step this w action w') :
    Weighted w' := (step_weights step).2 weighted

/-- From a state that is not over-committed, a step leads to another exactly if it adds no component
over what is left of 10 000. -/
theorem notOvercommitted_step_iff (weighted : Weighted w) (within : NotOvercommitted w)
    (step : Step this w action w') : NotOvercommitted w' ↔ AddsWithin w action := by
  rw [notOvercommitted_iff weighted] at within
  rw [notOvercommitted_iff (weighted.step step)]
  cases (step_weights step).1 with
  | idle same free =>
    refine iff_of_true (fun basket => ?_) free
    rw [same]
    exact within basket
  | reset basket _ bound here others free =>
    refine iff_of_true (fun other => ?_) free
    by_cases own : other = basket
    · rw [own, here]
      exact bound
    · rw [others other own]
      exact within other
  | add basket _ here others free =>
    rw [free, ← here]
    refine ⟨fun h => h basket, fun h other => ?_⟩
    by_cases own : other = basket
    · rw [own]
      exact h
    · rw [others other own]
      exact within other

omit [DecidableEq Address] in
theorem initial_weights (init : Initial this w) : Weighted w ∧ NotOvercommitted w := by
  obtain ⟨_, admin, config, h⟩ := init
  simp only [initializeBaskets, ok_iff] at h
  obtain ⟨_, -, _, -, _, -, _, -, rfl⟩ := h
  have weighted : Weighted
      ({ admin := some admin, globalConfig := some config, basketCount := some 0 } :
        World Address) :=
    fun _ _ h => by simp at h
  exact ⟨weighted, (notOvercommitted_iff weighted).2 fun _ => Int.zero_le_ofNat _⟩

/-- The state after a run whose additions all stay within 10 000 is not over-committed, and these
are exactly the runs through states that are not. -/
theorem weights_within_iff {w₀ : World Address} {actions : List (Env this × Call Address)}
    (init : Initial this w₀) :
    (Run (Guarded AddsWithin (Step this)) w₀ actions w → NotOvercommitted w) ∧
      (Run (Guarded AddsWithin (Step this)) w₀ actions w ↔
        Run (Into NotOvercommitted (Step this)) w₀ actions w) :=
  Run.guarded_iff_into Weighted (initial_weights init)
    (fun _ _ _ weighted step => weighted.step step)
    fun _ _ _ weighted within step => notOvercommitted_step_iff weighted within step

end Contract

/-! ## Two full weights -/

def signed : Env 0 := ⟨0, fun a => a != 0, zero_unsigned⟩

def basketRun (cond : World ℕ → Env 0 × Call ℕ → Prop) [∀ w, DecidablePred (cond w)]
    (calls : List (Call ℕ)) : Outcome Error (World ℕ) := do
  let w ← initializeBaskets signed 1 ⟨10000, 10000, 100, 16⟩ {}
  (calls.map (signed, ·)).foldlM (execIf cond fun w action => exec action.1 w action.2) w

theorem basketRun_run {cond : World ℕ → Env 0 × Call ℕ → Prop} [∀ w, DecidablePred (cond w)]
    {calls : List (Call ℕ)} {w : World ℕ} (h : basketRun cond calls = .ok w) :
    ∃ w₀, Initial 0 w₀ ∧ Run (Guarded cond (Step 0)) w₀ (calls.map (signed, ·)) w := by
  obtain ⟨w₀, h₀, h⟩ := bind_ok_iff.1 h
  refine ⟨w₀, ⟨signed, 1, _, h₀⟩, Run.of_foldlM (fun _ _ _ step => ?_) h⟩
  exact execIf_ok_iff.1 step

/-- A basket of two assets at half the weight each, rebalanced once it holds something. -/
theorem halves_not_overcommitted :
    ∃ w₀ w actions, Initial 0 w₀ ∧ Run (Guarded AddsWithin (Step 0)) w₀ actions w ∧
      weightSum w 0 = 10000 ∧ NotOvercommitted w := by
  obtain ⟨w, hw, whole⟩ : ∃ w, basketRun AddsWithin [.createBasket 5,
      .addComponent 5 0 8 5000 2, .addComponent 5 0 9 5000 8, .recordHolding 5 0 1000,
      .setPrice 5 0 1 3, .rebalanceTo 5 0 [7000, 3000]] = .ok w ∧ weightSum w 0 = 10000 := by
    decide +kernel
  obtain ⟨w₀, init, run⟩ := basketRun_run hw
  exact ⟨w₀, w, _, init, run, whole, (weights_within_iff init).1 run⟩

/-- Two assets at the full weight each: 100 of basket value is owed 100 of both. -/
theorem full_weights_overcommit :
    ∃ w, Reachable (Initial 0) (Step 0) w ∧ ¬ NotOvercommitted w ∧ weightSum w 0 = 20000 ∧
      componentsFor 0 100 w = .ok [(8, 100), (9, 100)] := by
  obtain ⟨w, hw, twice, owed⟩ : ∃ w, basketRun (fun _ _ => True) [.createBasket 5,
      .addComponent 5 0 8 10000 1, .addComponent 5 0 9 10000 1] = .ok w ∧
      weightSum w 0 = 20000 ∧ ∃ amounts, componentsFor 0 100 w = .ok amounts ∧
        amounts = [(8, 100), (9, 100)] := by
    decide +kernel
  obtain ⟨w₀, init, run⟩ := basketRun_run hw
  obtain ⟨_, owed, rfl⟩ := owed
  refine ⟨w, ⟨w₀, _, init, run.mono fun _ _ _ h => h.2⟩, fun within => ?_, twice, owed⟩
  exact absurd (within 0).1 (by rw [twice]; decide)

end BasketVault
