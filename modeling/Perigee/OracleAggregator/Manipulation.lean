import Perigee.OracleAggregator.Contract

/-!
# What a minority of the prices can do

The first median lies between honest prices.  The result is the median of the prices within five
percent of it, and in that selection the adversary may have the majority: the result stays within
five percent of the first median (`aggregate_bounded`), but not between the honest prices.
-/

namespace OracleAggregator

open Soroban Median

variable {prices kept : List ℤ} {m p threshold : ℤ}

theorem median_central (sorted : prices.Pairwise (· ≤ ·)) (positive : ∀ x ∈ prices, 0 < x)
    (h : median prices = .ok m) : Central prices m := by
  unfold median at h
  split_ifs at h with odd
  · have middle := unwrap_ok_iff.1 h
    exact central_of_sorted sorted middle middle (by omega) (by omega) le_rfl le_rfl
  · simp only [ok_iff] at h
    obtain ⟨low, lower, high, upper, _, ⟨-, rfl⟩, rfl⟩ := h
    have order : low ≤ high := by
      obtain ⟨below, rfl⟩ := List.getElem?_eq_some_iff.1 lower
      obtain ⟨below', rfl⟩ := List.getElem?_eq_some_iff.1 upper
      exact sorted.rel_get_of_le (a := ⟨_, below⟩) (b := ⟨_, below'⟩)
        (by simp only [Fin.mk_le_mk]; omega)
    have lowPositive := positive low (List.mem_of_getElem? lower)
    have quotient : (low + high).tdiv 2 = (low + high) / 2 :=
      Int.tdiv_eq_ediv_of_nonneg (by omega)
    exact central_of_sorted sorted lower upper (by omega) (by omega) (by omega) (by omega)

theorem absDiff_ok {left right diff : ℤ} (h : absDiff left right = .ok diff) :
    diff = |left - right| := by
  unfold absDiff at h
  split_ifs at h with lt
  · obtain ⟨-, rfl⟩ := i128_ok_iff.1 h
    rw [abs_of_pos (by omega)]
  · obtain ⟨-, rfl⟩ := i128_ok_iff.1 h
    rw [abs_of_nonpos (by omega)]
    omega

theorem keepClose_ok (h : keepClose m threshold prices = .ok kept) :
    kept = prices.filter fun price => saturateI128 (|price - m| * 100) ≤ threshold := by
  induction prices generalizing kept with
  | nil => exact (pure_ok_iff.1 h).symm
  | cons _ _ ih =>
    simp only [keepClose, ok_iff] at h
    obtain ⟨_, distance, _, others, rfl⟩ := h
    rw [List.filter_cons, ← ih others, absDiff_ok distance]
    simp only [decide_eq_true_eq]

theorem saturateI128_le_iff {x y : ℤ} (nonneg : 0 ≤ x) (small : y < 2 ^ 127 - 1) :
    saturateI128 x ≤ y ↔ x ≤ y := by
  unfold saturateI128
  omega

theorem close_of_between (between : Between kept p)
    (close : ∀ x ∈ kept, |x - m| * 100 ≤ m * 5) : |p - m| * 100 ≤ m * 5 := by
  obtain ⟨⟨low, lowIn, _⟩, high, highIn, _⟩ := between
  have below := close low lowIn
  have above := close high highIn
  have first := neg_abs_le (low - m)
  have second := le_abs_self (high - m)
  rcases abs_cases (p - m) with ⟨eq, -⟩ | ⟨eq, -⟩ <;> rw [eq] <;> omega

/-- If fewer than half of the prices are adversarial, the first median lies between honest prices
and the result is within five percent of it.  If fewer than half of the prices that the filter keeps
are adversarial, the result lies between honest prices itself. -/
theorem aggregate_bounded {honest adversarial : List ℤ}
    (split : prices.Perm (honest ++ adversarial))
    (minority : 2 * adversarial.length < prices.length) (positive : ∀ x ∈ prices, 0 < x)
    (returned : aggregateCollected prices = .ok p) :
    ∃ m kept, median (sortPrices prices) = .ok m ∧
      filterOutliers (sortPrices prices) m = .ok kept ∧ Between honest m ∧
      100 * |p - m| ≤ 5 * m ∧
      ∀ keptHonest keptAdversarial, kept.Perm (keptHonest ++ keptAdversarial) →
        keptHonest ⊆ honest → 2 * keptAdversarial.length < kept.length → Between honest p := by
  simp only [aggregateCollected, ok_iff] at returned
  obtain ⟨_, _, m, first, kept, close, _, _, second⟩ := returned
  have perm : (sortPrices prices).Perm prices := bubbleSort_perm prices
  have sorted : (sortPrices prices).Pairwise (· ≤ ·) := bubbleSort_sorted prices
  have sortedPositive : ∀ x ∈ sortPrices prices, 0 < x :=
    fun x mem => positive x (perm.mem_iff.1 mem)
  have central := median_central sorted sortedPositive first
  have selected := keepClose_ok close
  have sublist : kept.Sublist (sortPrices prices) := by
    rw [selected]
    exact List.filter_sublist
  have keptPositive : ∀ x ∈ kept, 0 < x := fun x mem => sortedPositive x (sublist.subset mem)
  have keptCentral := median_central (sorted.sublist sublist) keptPositive second
  have between := central.between (perm.trans split) (by rwa [perm.length_eq])
  have mPositive : 0 < m := by
    obtain ⟨⟨low, lowIn, le⟩, -⟩ := between
    exact (positive low (split.mem_iff.2 (List.mem_append_left _ lowIn))).trans_le le
  refine ⟨m, kept, first, close, between, ?_, ?_⟩
  · by_cases large : 2 ^ 127 - 1 ≤ m * 5
    · -- Nothing is filtered, so the second median is the first.
      have top : saturateI128 (m * 5) = 2 ^ 127 - 1 := by
        unfold saturateI128
        omega
      have same : kept = sortPrices prices := by
        rw [selected, List.filter_eq_self]
        intro x _
        apply decide_eq_true
        unfold saturateI128
        omega
      rw [same, first] at second
      obtain rfl := Except.ok.inj second
      simp only [sub_self, abs_zero]
      omega
    · have unsaturated : saturateI128 (m * 5) = m * 5 := by
        unfold saturateI128
        omega
      have within : ∀ x ∈ kept, |x - m| * 100 ≤ m * 5 := by
        intro x mem
        rw [selected, List.mem_filter, decide_eq_true_eq, unsaturated] at mem
        exact (saturateI128_le_iff (by positivity) (by omega)).1 mem.2
      have := close_of_between (keptCentral.between_self (by omega)) within
      omega
  · intro keptHonest keptAdversarial keptSplit sub few
    obtain ⟨⟨x, xIn, le⟩, y, yIn, ge⟩ := keptCentral.between keptSplit few
    exact ⟨⟨x, sub xIn, le⟩, y, sub yIn, ge⟩

/-- One of five prices is adversarial, and none of the four that are kept. -/
theorem honest_majority_kept :
    aggregateCollected [100, 101, 500, 99, 102] = .ok 100 ∧
      Between [100, 101, 99, 102] (100 : ℤ) := by
  have returned : aggregateCollected [100, 101, 500, 99, 102] = .ok 100 := by decide
  have split : [100, 101, 500, 99, 102].Perm ([100, 101, 99, 102] ++ [(500 : ℤ)]) := by decide
  obtain ⟨m, _, first, close, -, -, between⟩ :=
    aggregate_bounded split (by decide) (by decide) returned
  have center : median (sortPrices [100, 101, 500, 99, 102]) = .ok 101 := by decide
  have four : filterOutliers (sortPrices [100, 101, 500, 99, 102]) 101 =
      .ok [99, 100, 101, 102] := by
    decide
  obtain rfl := Except.ok.inj (center.symm.trans first)
  obtain rfl := Except.ok.inj (four.symm.trans close)
  exact ⟨returned, between [99, 100, 101, 102] [] (by decide) (by decide) (by decide)⟩

/-- Two adversarial prices of five move the result above every honest price. -/
theorem minority_moves_result :
    [50, 60, 100, 104, 105].Perm ([50, 60, 100] ++ [(104 : ℤ), 105]) ∧
      2 * [(104 : ℤ), 105].length < [(50 : ℤ), 60, 100, 104, 105].length ∧
      (∀ x ∈ [(50 : ℤ), 60, 100, 104, 105], 0 < x) ∧
      aggregateCollected [50, 60, 100, 104, 105] = .ok 104 ∧ ¬ Between [50, 60, 100] (104 : ℤ) := by
  refine ⟨.refl _, by decide, by decide, by decide, ?_⟩
  rintro ⟨-, _, mem, _⟩
  simp only [List.mem_cons, List.not_mem_nil, or_false] at mem
  omega

end OracleAggregator
