import Perigee.OracleAggregator.Manipulation

/-!
# When sources that agree are heard

A live price is taken only if the price stored for its source is fresh, and a stored price is
renewed only by a live price that is taken.  So a source that was quiet for longer than the
staleness limit is not heard again.
-/

namespace OracleAggregator

open Soroban

/-! ## Equal prices -/

section Equal

variable {v : ℤ} {c : ℕ}

theorem sortPrices_replicate (c : ℕ) (v : ℤ) :
    sortPrices (List.replicate c v) = List.replicate c v :=
  List.perm_replicate.1 (Median.bubbleSort_perm _)

theorem median_replicate_iff (three : 3 ≤ c) {m : ℤ} :
    median (List.replicate c v) = .ok m ↔ (c % 2 = 1 ∨ IsI128 (v + v)) ∧ m = v := by
  unfold median
  dsimp only
  rw [List.length_replicate]
  have here {i : ℕ} (below : i < c) : (List.replicate c v)[i]? = some v := by
    rw [List.getElem?_replicate, if_pos below]
  split_ifs with odd
  · rw [here (by omega), unwrap_ok_iff]
    simp [odd, eq_comm]
  · rw [here (by omega), here (by omega)]
    simp only [ok_iff, Option.some_inj]
    have half : (v + v).tdiv 2 = v := by rw [← two_mul, Int.mul_tdiv_cancel_left v two_ne_zero]
    constructor
    · rintro ⟨_, rfl, _, rfl, _, ⟨range, rfl⟩, rfl⟩
      exact ⟨.inr range, half⟩
    · rintro ⟨range, rfl⟩
      exact ⟨m, rfl, m, rfl, m + m, ⟨range.resolve_left odd, rfl⟩, half⟩

theorem absDiff_self (v : ℤ) : absDiff v v = .ok 0 := by
  unfold absDiff
  rw [if_neg (lt_irrefl v), sub_self]
  rfl

theorem keepClose_replicate {threshold : ℤ} (nonneg : 0 ≤ threshold) (c : ℕ) :
    keepClose v threshold (List.replicate c v) = .ok (List.replicate c v) := by
  induction c with
  | zero => rfl
  | succ c ih =>
    have close : saturateI128 (0 * 100) ≤ threshold := nonneg
    rw [List.replicate_succ, keepClose, absDiff_self, ih]
    simp only [ok_iff]
    exact ⟨0, rfl, List.replicate c v, rfl, if_pos close⟩

theorem aggregateCollected_replicate_iff (positive : 0 < v) {p : ℤ} :
    aggregateCollected (List.replicate c v) = .ok p ↔
      3 ≤ c ∧ (c % 2 = 1 ∨ IsI128 (v + v)) ∧ p = v := by
  have nonneg : 0 ≤ saturateI128 (v * 5) := by
    unfold saturateI128
    omega
  simp only [aggregateCollected, ok_iff, sortPrices_replicate, List.length_replicate, not_lt]
  constructor
  · rintro ⟨_, three, m, first, _, close, _, -, second⟩
    obtain ⟨range, rfl⟩ := (median_replicate_iff three).1 first
    obtain rfl := Except.ok.inj ((keepClose_replicate nonneg c).symm.trans close)
    exact ⟨three, (median_replicate_iff three).1 second⟩
  · rintro ⟨three, range, rfl⟩
    have center := (median_replicate_iff three).2 ⟨range, rfl⟩
    refine ⟨(), three, p, center, List.replicate c p, keepClose_replicate nonneg c, (), ?_, center⟩
    rw [List.length_replicate]
    exact three

end Equal

/-! ## Collecting -/

section Contract

variable {Address : Type} [DecidableEq Address] {host : Host Address} {w : World Address}
  {sources : List Address} {maxStaleness : ℕ} {v : ℤ}

theorem isPriceFresh_set {source : Address} {price : ℤ} {now : ℕ}
    (fresh : isPriceFresh w source now maxStaleness = true) (other : Address) :
    isPriceFresh { w with sourcePrices := w.sourcePrices.set source ⟨price, now⟩ } other now
      maxStaleness = isPriceFresh w other now maxStaleness := by
  by_cases same : other = source
  · subst same
    rw [fresh]
    simp [isPriceFresh, getStoredPrice]
  · unfold isPriceFresh getStoredPrice
    rw [Store.lookup_set_of_ne _ _ same]

/-- The number of places of the list whose source has a fresh stored price, or none. -/
def freshPlaces (host : Host Address) (maxStaleness : ℕ) (sources : List Address)
    (w : World Address) : ℕ :=
  sources.countP fun source => isPriceFresh w source host.timestamp maxStaleness

theorem freshPlaces_cons (source : Address) (rest : List Address) (w : World Address) :
    freshPlaces host maxStaleness (source :: rest) w = freshPlaces host maxStaleness rest w +
      if isPriceFresh w source host.timestamp maxStaleness = true then 1 else 0 :=
  List.countP_cons

/-- Sources that answer with one positive price contribute it once for every fresh place. -/
theorem collectPrices_agreed (positive : 0 < v)
    (answers : ∀ i, ∀ source ∈ sources, host.latestPrice i source = some v)
    (maxStaleness idx : ℕ) (prices : List ℤ) (w : World Address) :
    ∃ w', collectPrices host maxStaleness idx sources prices w =
      .ok (prices ++ List.replicate (freshPlaces host maxStaleness sources w) v, w') := by
  induction sources generalizing idx prices w with
  | nil =>
    refine ⟨w, ?_⟩
    rw [freshPlaces, List.countP_nil, List.replicate_zero, List.append_nil]
    rfl
  | cons source rest ih =>
    have later := ih fun i other mem => answers i other (List.mem_cons_of_mem _ mem)
    have live : (unwrap (host.latestPrice idx source) : Result ℤ) = .ok v := by
      rw [answers idx source List.mem_cons_self]
      rfl
    by_cases fresh : isPriceFresh w source host.timestamp maxStaleness = true
    · obtain ⟨w', collected⟩ := later (idx + 1) (prices ++ [v])
        { w with sourcePrices := w.sourcePrices.set source ⟨v, host.timestamp⟩ }
      have same : freshPlaces host maxStaleness rest
          { w with sourcePrices := w.sourcePrices.set source ⟨v, host.timestamp⟩ } =
          freshPlaces host maxStaleness rest w := by
        simp only [freshPlaces, isPriceFresh_set fresh]
      refine ⟨w', bind_ok_iff.2 ⟨v, live, ?_⟩⟩
      rw [if_pos ⟨positive, fresh⟩, freshPlaces_cons, if_pos fresh, ← same]
      rwa [List.append_assoc] at collected
    · obtain ⟨w', collected⟩ := later (idx + 1) prices w
      have same : freshPlaces host maxStaleness (source :: rest) w =
          freshPlaces host maxStaleness rest w := by
        rw [freshPlaces_cons, if_neg fresh, Nat.add_zero]
      refine ⟨w', bind_ok_iff.2 ⟨v, live, ?_⟩⟩
      rw [if_neg fun h => fresh h.2, same, ← collected]
      unfold isPriceFresh at fresh
      split_ifs at fresh with disabled
      · exact absurd rfl fresh
      · -- The stored price that the fallback reads is the one that is not fresh.
        cases stored : getStoredPrice w source with
        | none => rfl
        | some =>
          simp only [stored, decide_eq_true_eq] at fresh
          exact if_neg fun h => h.elim disabled fresh

/-! ## The agreed price -/

/-- Sources that all answer with one positive price get it through exactly if three places of the
list at least are fresh, and their number is odd or twice the price does not overflow. -/
theorem agreed_price_iff (positive : 0 < v)
    (answers : ∀ i, ∀ source ∈ sources, host.latestPrice i source = some v) (w : World Address) :
    (∃ w', aggregatePrice host sources w = .ok (v, w')) ↔
      3 ≤ freshPlaces host (getMaxStaleness w) sources w ∧
        (freshPlaces host (getMaxStaleness w) sources w % 2 = 1 ∨ v + v < 2 ^ 127) := by
  obtain ⟨w₁, collected⟩ := collectPrices_agreed positive answers (getMaxStaleness w) 0 [] w
  have range : IsI128 (v + v) ↔ v + v < 2 ^ 127 := by
    unfold IsI128
    omega
  have bound : freshPlaces host (getMaxStaleness w) sources w ≤ sources.length :=
    List.countP_le_length
  simp only [aggregatePrice, ok_iff, not_lt, collected, Except.ok.injEq, Prod.mk.injEq]
  constructor
  · rintro ⟨w', _, -, _, rfl, p, returned, rfl, -⟩
    obtain ⟨three, odd, -⟩ := (aggregateCollected_replicate_iff positive).1 returned
    exact ⟨three, odd.imp_right range.1⟩
  · rintro ⟨three, odd⟩
    refine ⟨w₁, (), three.trans bound, _, rfl, v, ?_, rfl, rfl⟩
    exact (aggregateCollected_replicate_iff positive).2 ⟨three, odd.imp_right range.2, rfl⟩

def agreeing (time : ℕ) (call : Call ℕ) : Action ℕ := ⟨⟨time, fun _ _ => some 100⟩, call⟩

/-- The prices of an aggregation are renewed within the limit. -/
theorem renewed_in_time :
    ∃ s : Timed (World ℕ), Run (Timed.Step Action.time Step) ⟨{}, 0⟩
        [agreeing 0 (.initializeOracle 10), agreeing 0 (.aggregatePrice [1, 2, 3])] s ∧
      ∃ w', aggregatePrice (agreeing 10 (.aggregatePrice [1, 2, 3])).host [1, 2, 3] s.state =
        .ok (100, w') := by
  obtain ⟨s, h, three⟩ : ∃ s, [agreeing 0 (.initializeOracle 10),
      agreeing 0 (.aggregatePrice [1, 2, 3])].foldlM (Timed.perform Action.time perform) ⟨{}, 0⟩ =
        .ok s ∧ freshPlaces (agreeing 10 (.aggregatePrice [1, 2, 3])).host
          (getMaxStaleness s.state) [1, 2, 3] s.state = 3 := by
    decide +kernel
  refine ⟨s, Run.of_foldlM (fun _ _ _ => Timed.perform_step fun _ _ _ => id) h, ?_⟩
  refine (agreed_price_iff (by decide) (fun _ _ _ => rfl) s.state).2 ?_
  rw [three]
  decide

/-- One second past the limit three sources that agree are not heard. -/
theorem agreeing_sources_not_heard :
    ∃ s : Timed (World ℕ), Run (Timed.Step Action.time Step) ⟨{}, 0⟩
        [agreeing 0 (.initializeOracle 10), agreeing 0 (.aggregatePrice [1, 2, 3])] s ∧
      (∀ i, ∀ source ∈ [1, 2, 3],
        (agreeing 11 (.aggregatePrice [1, 2, 3])).host.latestPrice i source = some 100) ∧
      Prod.fst <$> aggregatePrice (agreeing 11 (.aggregatePrice [1, 2, 3])).host [1, 2, 3] s.state =
        .error (.err .notEnoughValidPrices) ∧
      ¬ ∃ w', aggregatePrice (agreeing 11 (.aggregatePrice [1, 2, 3])).host [1, 2, 3] s.state =
        .ok (100, w') := by
  obtain ⟨s, h, failed⟩ : ∃ s, [agreeing 0 (.initializeOracle 10),
      agreeing 0 (.aggregatePrice [1, 2, 3])].foldlM (Timed.perform Action.time perform) ⟨{}, 0⟩ =
        .ok s ∧ Prod.fst <$> aggregatePrice (agreeing 11 (.aggregatePrice [1, 2, 3])).host
          [1, 2, 3] s.state = .error (.err .notEnoughValidPrices) := by
    decide +kernel
  refine ⟨s, Run.of_foldlM (fun _ _ _ => Timed.perform_step fun _ _ _ => id) h, fun _ _ _ => rfl,
    failed, ?_⟩
  rintro ⟨w', returned⟩
  rw [returned] at failed
  cases failed

end Contract

end OracleAggregator
