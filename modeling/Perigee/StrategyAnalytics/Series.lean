import Perigee.StrategyAnalytics.Contract

/-!
# The drawdown of a strategy

A series keeps the highest value so far and the largest decline from it, and no history.  A decline
from an earlier value is at most the one from the highest, so that is the largest decline between
any two values in their order (`series_tracks_drawdown`).
-/

namespace StrategyAnalytics

open Soroban

def secondsPerYear : ℤ := 31536000

structure Series where
  firstTimestamp : ℕ
  lastTimestamp : ℕ
  firstAssets : ℤ
  lastAssets : ℤ
  highWaterMark : ℤ
  maxDrawdownBps : ℕ
  samples : ℕ

structure PerformanceReport where
  apyBps : ℤ
  benchmarkApyBps : ℤ
  excessBps : ℤ
  highWaterMark : ℤ
  currentDrawdownBps : ℕ
  maxDrawdownBps : ℕ
  samples : ℕ

/-- The registry with the recorded series. -/
structure Tracked (Address : Type) extends World Address where
  series : Store Address Series := ∅
  benchmark : Option Series := none

def apyBps (series : Series) : Result ℤ := do
  reject (series.samples < 2) .notEnoughSamples
  reject (series.firstAssets ≤ 0) .invalidAmount
  let elapsed := series.lastTimestamp - series.firstTimestamp
  reject (elapsed = 0) .divisionByZero
  let gain ← i128 (series.lastAssets - series.firstAssets)
  let scaled ← checkedI128 (gain * bpsDenominator) .mathOverflow
  let growthBps := scaled.tdiv series.firstAssets
  let yearly ← checkedI128 (growthBps * secondsPerYear) .mathOverflow
  pure (yearly.tdiv elapsed)

/-- A decline in basis points `as u32`, where a gain counts as none. -/
def asDrawdown (decline : ℤ) : ℕ := if 0 < decline then decline.toNat % 2 ^ 32 else 0

/-- The part of `updateSeries` for a series that has samples. -/
def comparePeak (series : Series) (assets : ℤ) : Result Series := do
  let maxDrawdownBps ← if 0 < series.highWaterMark then do
      let decline ← i128 (series.highWaterMark - assets)
      let scaled ← checkedI128 (decline * bpsDenominator) .mathOverflow
      pure (max series.maxDrawdownBps (asDrawdown (scaled.tdiv series.highWaterMark)))
    else pure series.maxDrawdownBps
  pure { series with maxDrawdownBps, highWaterMark := max series.highWaterMark assets }

def updateSeries (now : ℕ) (stored : Option Series) (assets : ℤ) : Result Series := do
  reject (assets ≤ 0) .invalidAmount
  let series := stored.getD ⟨now, now, assets, assets, assets, 0, 0⟩
  let series ← if 0 < series.samples then comparePeak series assets else pure series
  let samples ← checkedU32 (series.samples + 1) .mathOverflow
  pure { series with lastTimestamp := now, lastAssets := assets, samples }

section Contract

variable {Address : Type} [DecidableEq Address] {this : Address}

def recordSnapshot (env : Env this) (now : ℕ) (admin strategy : Address) (assets : ℤ)
    (t : Tracked Address) : Result (Tracked Address) := do
  requireAdmin env admin t.toWorld
  let _ ← loadProfile strategy t.toWorld
  let series ← updateSeries now (t.series.lookup strategy) assets
  pure { t with series := t.series.set strategy series }

def recordBenchmark (env : Env this) (now : ℕ) (admin : Address) (assets : ℤ)
    (t : Tracked Address) : Result (Tracked Address) := do
  requireAdmin env admin t.toWorld
  let series ← updateSeries now t.benchmark assets
  pure { t with benchmark := some series }

/-- `apy_bps(&benchmark).unwrap_or(0)`, and 0 without a benchmark. -/
def benchmarkOr (benchmark : Option Series) : Result ℤ :=
  match benchmark.map apyBps with
  | none | some (.error (.err _)) => pure 0
  | some apy => apy

/-- The current drawdown of `performance`. -/
def currentDrawdown (series : Series) : Result ℕ :=
  if 0 < series.highWaterMark then do
    let decline ← i128 (series.highWaterMark - series.lastAssets)
    let scaled ← i128 (decline * bpsDenominator)
    pure (asDrawdown (scaled.tdiv series.highWaterMark))
  else pure 0

def performance (strategy : Address) (t : Tracked Address) : Result PerformanceReport := do
  let series ← okOr (t.series.lookup strategy) .notEnoughSamples
  let benchmarkApyBps ← benchmarkOr t.benchmark
  let apy ← apyBps series
  let currentDrawdownBps ← currentDrawdown series
  let excessBps ← i128 (apy - benchmarkApyBps)
  pure ⟨apy, benchmarkApyBps, excessBps, series.highWaterMark, currentDrawdownBps,
    series.maxDrawdownBps, series.samples⟩

inductive TrackedCall (Address : Type) where
  | registry (call : Call Address)
  | recordSnapshot (admin strategy : Address) (assets : ℤ)
  | recordBenchmark (admin : Address) (assets : ℤ)

structure TrackedAction (this : Address) where
  env : Env this
  now : ℕ
  call : TrackedCall Address

def trackedExec (t : Tracked Address) (action : TrackedAction this) : Result (Tracked Address) :=
  match action.call with
  | .registry call => do
    let w ← exec t.toWorld (action.env, call)
    pure { t with toWorld := w }
  | .recordSnapshot admin strategy assets =>
    recordSnapshot action.env action.now admin strategy assets t
  | .recordBenchmark admin assets => recordBenchmark action.env action.now admin assets t

def TrackedStep (t : Tracked Address) (action : TrackedAction this) (t' : Tracked Address) : Prop :=
  trackedExec t action = .ok t'

def recordedFor (strategy : Address) (actions : List (TrackedAction this)) : List ℤ :=
  actions.filterMap fun action => match action.call with
    | .recordSnapshot _ other assets => if other = strategy then some assets else none
    | _ => none

end Contract

/-! ## Declines -/

/-- `a` is recorded no later than `b`. -/
def InOrder (values : List ℤ) (a b : ℤ) : Prop :=
  ∃ i j : ℕ, i ≤ j ∧ values[i]? = some a ∧ values[j]? = some b

/-- The decline from `a` to `b` in basis points, where a gain counts as none. -/
def drawdown (a b : ℤ) : ℤ := max 0 ((a - b) * bpsDenominator / a)

theorem inOrder_snoc {values : List ℤ} {c a b : ℤ} :
    InOrder (values ++ [c]) a b ↔ InOrder values a b ∨ a ∈ values ++ [c] ∧ b = c := by
  constructor
  · rintro ⟨i, j, le, first, second⟩
    rcases Nat.lt_or_ge j values.length with inside | last
    · rw [List.getElem?_append_left inside] at second
      rw [List.getElem?_append_left (le.trans_lt inside)] at first
      exact .inl ⟨i, j, le, first, second⟩
    · rw [List.getElem?_append_right last, List.getElem?_singleton] at second
      split_ifs at second
      exact .inr ⟨List.mem_of_getElem? first, (Option.some.inj second).symm⟩
  · rintro (⟨i, j, le, first, second⟩ | ⟨member, rfl⟩)
    · have below := (List.getElem?_eq_some_iff.1 second).1
      refine ⟨i, j, le, ?_, ?_⟩
      · rwa [List.getElem?_append_left (le.trans_lt below)]
      · rwa [List.getElem?_append_left below]
    · obtain ⟨i, first⟩ := List.getElem?_of_mem member
      have below := (List.getElem?_eq_some_iff.1 first).1
      rw [List.length_append, List.length_singleton, Nat.lt_succ_iff] at below
      exact ⟨i, values.length, below, first, by simp⟩

theorem drawdown_self (a : ℤ) : drawdown a a = 0 := by
  rw [drawdown, sub_self, zero_mul, Int.zero_ediv, max_self]

section Decline

variable {a b h : ℤ} (value : 0 < b)
include value

theorem quotient_le (pos : 0 < a) : (a - b) * bpsDenominator / a ≤ bpsDenominator := by
  refine Int.ediv_le_of_le_mul pos ?_
  rw [mul_comm]
  exact mul_le_mul_of_nonneg_left (sub_le_self a value.le) (by decide)

/-- A decline to the same value is larger from a higher one. -/
theorem drawdown_mono (pos : 0 < a) (le : a ≤ h) : drawdown a b ≤ drawdown h b := by
  refine max_le_max le_rfl ((Int.le_ediv_iff_mul_le (pos.trans_le le)).2 ?_)
  have share := Int.ediv_mul_le ((a - b) * bpsDenominator) pos.ne'
  have rest := mul_nonneg (sub_nonneg.2 le) (sub_nonneg.2 (quotient_le value pos))
  linarith

theorem asDrawdown_eq (pos : 0 < h) :
    (asDrawdown (((h - b) * bpsDenominator).tdiv h) : ℤ) = drawdown h b := by
  have most := quotient_le value pos
  unfold asDrawdown drawdown
  by_cases falls : b ≤ h
  · rw [Int.tdiv_eq_ediv_of_nonneg (mul_nonneg (sub_nonneg.2 falls) (by decide))]
    generalize (h - b) * bpsDenominator / h = q at most ⊢
    unfold bpsDenominator at most
    split_ifs <;> omega
  · have negative : (h - b) * (bpsDenominator : ℤ) ≤ 0 :=
      mul_nonpos_of_nonpos_of_nonneg (sub_nonpos.2 (not_le.1 falls).le) (by decide)
    have truncated := Int.tdiv_le_tdiv pos negative
    rw [Int.zero_tdiv] at truncated
    rw [if_neg truncated.not_gt, max_eq_left (Int.ediv_nonpos_of_nonpos_of_neg negative pos)]
    rfl

end Decline

/-! ## Runs -/

/-- The series is that of the values. -/
structure Tracks (values : List ℤ) (series : Series) : Prop where
  positive : ∀ a ∈ values, 0 < a
  samples : series.samples = values.length
  first : values.head? = some series.firstAssets
  last : values.getLast? = some series.lastAssets
  peak : IsGreatest {a | a ∈ values} series.highWaterMark
  deepest : IsGreatest {d | ∃ a b, InOrder values a b ∧ d = drawdown a b}
    (series.maxDrawdownBps : ℤ)

variable {values : List ℤ} {series series' : Series} {now : ℕ} {assets : ℤ}

theorem Tracks.start (h : updateSeries now none assets = .ok series) : Tracks [assets] series := by
  simp only [updateSeries, ok_iff, not_le] at h
  obtain ⟨_, _, _, rfl, _, ⟨-, rfl⟩, rfl⟩ := h
  refine ⟨by simpa, rfl, rfl, rfl, ⟨by simp, fun a => by simp +contextual⟩,
    ⟨assets, assets, ⟨0, 0, le_rfl, rfl, rfl⟩, (drawdown_self assets).symm⟩, ?_⟩
  rintro _ ⟨a, b, order, rfl⟩
  rcases (@inOrder_snoc [] assets a b).1 order with ⟨_, _, -, none, -⟩ | ⟨member, rfl⟩
  · cases none
  · rw [List.mem_singleton.1 member]
    exact (drawdown_self b).le

theorem Tracks.next (tracks : Tracks values series)
    (h : updateSeries now (some series) assets = .ok series') :
    Tracks (values ++ [assets]) series' := by
  have some_sample : 0 < series.samples := by
    rw [tracks.samples, List.length_pos_iff]
    rintro rfl
    cases tracks.first
  have peak_pos := tracks.positive _ tracks.peak.1
  simp only [updateSeries, comparePeak, Option.getD_some, some_sample, peak_pos, if_true, ok_iff,
    not_le] at h
  obtain ⟨_, value, _, ⟨_, ⟨-, rfl⟩, _, ⟨-, rfl⟩, _, rfl, rfl⟩, _, ⟨-, rfl⟩, rfl⟩ := h
  refine ⟨List.forall_mem_append.2 ⟨tracks.positive, by simpa⟩, ?_, ?_, by simp, ⟨?_, ?_⟩, ?_⟩
  · rw [tracks.samples, List.length_append, List.length_singleton]
  · rw [List.head?_append, tracks.first]
    rfl
  · rcases max_choice series.highWaterMark assets with same | same <;> rw [same]
    · exact List.mem_append_left _ tracks.peak.1
    · exact List.mem_append_right _ (List.mem_singleton_self _)
  · refine List.forall_mem_append.2 ⟨fun a member => le_max_of_le_left (tracks.peak.2 member), ?_⟩
    simp
  · rw [Nat.cast_max, asDrawdown_eq value peak_pos]
    constructor
    · rcases max_choice (series.maxDrawdownBps : ℤ) (drawdown series.highWaterMark assets)
        with same | same <;> rw [same]
      · obtain ⟨a, b, order, deepest⟩ := tracks.deepest.1
        exact ⟨a, b, inOrder_snoc.2 (.inl order), deepest⟩
      · exact ⟨_, _, inOrder_snoc.2 (.inr ⟨List.mem_append_left _ tracks.peak.1, rfl⟩), rfl⟩
    · rintro _ ⟨a, b, order, rfl⟩
      rcases inOrder_snoc.1 order with earlier | ⟨member, rfl⟩
      · exact le_max_of_le_left (tracks.deepest.2 ⟨a, b, earlier, rfl⟩)
      · refine le_max_of_le_right ?_
        rcases List.mem_append.1 member with member | member
        · exact drawdown_mono value (tracks.positive a member) (tracks.peak.2 member)
        · rw [List.mem_singleton.1 member, drawdown_self]
          exact le_max_left 0 _

section Runs

variable {Address : Type} [DecidableEq Address] {this : Address} {t t' : Tracked Address}
  {actions : List (TrackedAction this)}

theorem recordedFor_snoc (strategy : Address) (action : TrackedAction this) :
    recordedFor strategy (actions ++ [action]) = recordedFor strategy actions ++
      match action.call with
      | .recordSnapshot _ other assets => if other = strategy then [assets] else []
      | _ => [] := by
  rw [recordedFor, List.filterMap_append]
  congr 1
  obtain ⟨_, _, _ | ⟨_, other, _⟩ | _⟩ := action
  · rfl
  · by_cases own : other = strategy <;> simp [own]
  · rfl

/-- After any run the series of a strategy is that of the values recorded for it, and the current
drawdown that is reported is at most the largest one. -/
theorem series_tracks_drawdown (run : Run TrackedStep ({} : Tracked Address) actions t)
    (strategy : Address) (recorded : recordedFor strategy actions ≠ []) :
    ∃ series, t.series.lookup strategy = some series ∧
      Tracks (recordedFor strategy actions) series ∧
      ∀ report, performance strategy t = .ok report →
        report.currentDrawdownBps ≤ series.maxDrawdownBps := by
  have kept : (recordedFor strategy actions = [] ∧ t.series.lookup strategy = none) ∨
      ∃ series, t.series.lookup strategy = some series ∧
        Tracks (recordedFor strategy actions) series := by
    clear recorded
    induction run with
    | nil => exact .inl ⟨rfl, rfl⟩
    | @snoc _ _ _ action _ last ih =>
      obtain ⟨_, _, call⟩ := action
      rw [recordedFor_snoc]
      cases call <;> simp only [TrackedStep, trackedExec, recordSnapshot, recordBenchmark,
        ok_iff] at last
      case registry =>
        obtain ⟨w, -, rfl⟩ := last
        rwa [List.append_nil]
      case recordBenchmark =>
        obtain ⟨_, -, _, -, rfl⟩ := last
        rwa [List.append_nil]
      case recordSnapshot other assets =>
        obtain ⟨_, -, _, -, series', updated, rfl⟩ := last
        dsimp only
        by_cases own : other = strategy
        · subst own
          rw [if_pos rfl, Store.lookup_set_self]
          refine .inr ⟨series', rfl, ?_⟩
          rcases ih with ⟨empty, none⟩ | ⟨series, stored, tracks⟩
          · rw [none] at updated
            rw [empty]
            exact .start updated
          · rw [stored] at updated
            exact tracks.next updated
        · rw [if_neg own, List.append_nil, Store.lookup_set_of_ne _ _ (Ne.symm own)]
          exact ih
  obtain ⟨none, -⟩ | ⟨series, stored, tracks⟩ := kept
  · exact absurd none recorded
  · refine ⟨series, stored, tracks, fun report h => ?_⟩
    have peak_pos := tracks.positive _ tracks.peak.1
    have ended := List.mem_of_getLast? tracks.last
    simp only [performance, ok_iff] at h
    obtain ⟨_, same, _, -, _, -, _, current, _, -, rfl⟩ := h
    obtain rfl := Option.mem_unique stored same
    simp only [currentDrawdown, peak_pos, if_true, ok_iff] at current
    obtain ⟨_, ⟨-, rfl⟩, _, ⟨-, rfl⟩, rfl⟩ := current
    have found : InOrder (recordedFor strategy actions) series.highWaterMark series.lastAssets := by
      obtain ⟨i, peak⟩ := List.getElem?_of_mem tracks.peak.1
      have below := (List.getElem?_eq_some_iff.1 peak).1
      exact ⟨i, _, by omega, peak, List.getLast?_eq_getElem? ▸ tracks.last⟩
    have deepest := tracks.deepest.2 ⟨_, _, found, rfl⟩
    rw [← asDrawdown_eq (tracks.positive _ ended) peak_pos] at deepest
    exact_mod_cast deepest

end Runs

/-- The admin `1` does the call at the given time. -/
def byAdmin (now : ℕ) (call : TrackedCall ℕ) : TrackedAction 0 :=
  ⟨⟨0, fun a => a ≠ 0, zero_unsigned⟩, now, call⟩

def snapshots : List (TrackedAction 0) :=
  [byAdmin 0 (.registry (.initializeAnalytics 1 ⟨50, 1000, 10000, 10000⟩)),
    byAdmin 0 (.registry (.registerStrategy 1 ⟨5, 51, 6000, 1⟩)),
    byAdmin 1 (.recordSnapshot 1 5 200), byAdmin 2 (.recordSnapshot 1 5 150),
    byAdmin 3 (.recordSnapshot 1 5 300), byAdmin 4 (.recordSnapshot 1 5 240)]

/-- A strategy falls from 200 to 150, rises to 300 and falls to 240. -/
theorem drawdown_of_four_snapshots : ∃ t series,
    Run TrackedStep {} snapshots t ∧ t.series.lookup 5 = some series ∧
    Tracks [200, 150, 300, 240] series ∧ series.maxDrawdownBps = 2500 ∧
    ∃ report, performance 5 t = .ok report ∧ report.currentDrawdownBps = 2000 := by
  obtain ⟨t, run, deepest, now⟩ : ∃ t, Run TrackedStep {} snapshots t ∧
      (∀ series ∈ t.series.lookup 5, series.maxDrawdownBps = 2500) ∧
        ∃ report, performance 5 t = .ok report ∧ report.currentDrawdownBps = 2000 :=
    exists_run (fun _ _ _ => id) (by decide +kernel)
  obtain ⟨series, stored, tracks, -⟩ := series_tracks_drawdown run 5 (by decide)
  exact ⟨t, series, run, stored, tracks, deepest series stored, now⟩

end StrategyAnalytics
