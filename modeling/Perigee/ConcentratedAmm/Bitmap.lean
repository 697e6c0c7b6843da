import Perigee.ConcentratedAmm.Contract
import Perigee.Data.BitScan

/-!
# The tick bitmap

Every tick where a range ends has a bit, at its index in units of the tick spacing.  With a positive
spacing the search of a swap returns the nearest tick with a bit in its direction, if there is one
in the word it looks at.
-/

namespace ConcentratedAmm

open Soroban BitScan

variable {s t : ℤ}

def tickBit (bitmap : TickBitmap) (tickSpacing tick : ℤ) : Bool :=
  bit (fun wordPos => bitmap.getD wordPos 0) (tick.tdiv tickSpacing)

variable {bitmap bitmap' : TickBitmap} {tick tickSpacing next q : ℤ}

theorem getD_write (wordPos : ℤ) (word : BitVec 64) :
    (fun p => (if word = 0 then bitmap.remove wordPos else bitmap.set wordPos word).getD p 0) =
      Function.update (fun p => bitmap.getD p 0) wordPos word := by
  funext p
  by_cases same : p = wordPos
  · subst same
    split_ifs with zero
    · simp [Store.getD, zero]
    · simp [Store.getD]
  · rw [Function.update_of_ne same]
    split_ifs
    · simp [Store.getD, Store.lookup_remove_of_ne _ same]
    · simp [Store.getD, Store.lookup_set_of_ne _ _ same]

theorem tdiv_inj (hs : tickSpacing ∣ s) (ht : tickSpacing ∣ t)
    (h : s.tdiv tickSpacing = t.tdiv tickSpacing) : s = t := by
  rw [← Int.tdiv_mul_cancel hs, ← Int.tdiv_mul_cancel ht, h]

theorem flipIf_ok {flipped : Bool} (h : flipIf flipped bitmap tick tickSpacing = .ok bitmap')
    (hd : tickSpacing ∣ tick) (ht : tickSpacing ∣ t) :
    tickBit bitmap' tickSpacing t =
      (tickBit bitmap tickSpacing t ^^ (flipped && decide (t = tick))) := by
  unfold flipIf at h
  split_ifs at h with on
  · obtain ⟨_, div, h⟩ := bind_ok_iff.1 h
    obtain ⟨-, -, rfl⟩ := divI32_ok_iff.1 div
    obtain rfl := pure_ok_iff.1 h
    have index : t.tdiv tickSpacing = tick.tdiv tickSpacing ↔ t = tick :=
      ⟨tdiv_inj ht hd, fun h => by rw [h]⟩
    unfold tickBit
    rw [getD_write, bit_flip, decide_eq_decide.2 index, on, Bool.true_and]
  · obtain rfl := pure_ok_iff.1 h
    simp [on]

/-! ## The search -/

theorem spacing_ne_zero (h : compress tick tickSpacing = .ok q) : tickSpacing ≠ 0 := by
  unfold compress at h
  split_ifs at h
  · obtain ⟨_, remainder, -⟩ := bind_ok_iff.1 h
    exact (remI32_ok_iff.1 remainder).1
  · exact (divI32_ok_iff.1 h).1

variable (pos : 0 < tickSpacing)
include pos

theorem compress_ok (h : compress tick tickSpacing = .ok q) :
    q = tick / tickSpacing := by
  unfold compress at h
  split_ifs at h with negative
  · obtain ⟨_, hr, h⟩ := bind_ok_iff.1 h
    obtain ⟨_, hq, h⟩ := bind_ok_iff.1 h
    obtain ⟨-, -, rfl⟩ := remI32_ok_iff.1 hr
    obtain ⟨-, -, rfl⟩ := divI32_ok_iff.1 hq
    have division := Int.tdiv_mul_add_tmod tick tickSpacing
    have sign : tick.tmod tickSpacing ≤ 0 := by
      have opposite := Int.tmod_nonneg tickSpacing (neg_nonneg.2 negative.le)
      rwa [Int.neg_tmod, neg_nonneg] at opposite
    have size := Int.lt_tmod_of_pos tick pos
    split_ifs at h with inexact
    · obtain ⟨-, rfl⟩ := i32_ok_iff.1 h
      symm
      rw [Int.ediv_eq_iff_of_pos pos]
      constructor
      · linarith
      · have : tick.tmod tickSpacing ≠ 0 := inexact
        have strict : tick.tmod tickSpacing < 0 := lt_of_le_of_ne sign this
        linarith
    · obtain rfl := pure_ok_iff.1 h
      rw [not_not] at inexact
      exact Int.tdiv_eq_ediv_of_dvd (Int.dvd_of_tmod_eq_zero inexact)
  · obtain ⟨-, -, rfl⟩ := divI32_ok_iff.1 h
    exact Int.tdiv_eq_ediv_of_nonneg (not_lt.1 negative)

theorem index_le_iff (ht : tickSpacing ∣ t) :
    t.tdiv tickSpacing ≤ tick / tickSpacing ↔ t ≤ tick := by
  rw [Int.le_ediv_iff_mul_le pos, Int.tdiv_mul_cancel ht]

theorem index_lt_iff (hs : tickSpacing ∣ s) (ht : tickSpacing ∣ t) :
    s.tdiv tickSpacing < t.tdiv tickSpacing ↔ s < t := by
  rw [← mul_lt_mul_iff_left₀ pos, Int.tdiv_mul_cancel hs, Int.tdiv_mul_cancel ht]

theorem index_mul (c : ℤ) :
    tickSpacing ∣ c * tickSpacing ∧ (c * tickSpacing).tdiv tickSpacing = c :=
  ⟨Dvd.intro_left _ rfl, Int.mul_tdiv_cancel _ pos.ne'⟩

theorem search_down
    (h : nextInitializedTickWithinOneWord bitmap tick tickSpacing true = .ok (next, true)) :
    tickSpacing ∣ next ∧ next ≤ tick ∧ tickBit bitmap tickSpacing next = true ∧
      ∀ t, tickSpacing ∣ t → next < t → t ≤ tick → tickBit bitmap tickSpacing t = false := by
  obtain ⟨found, rfl, _, set, clear⟩ : ∃ found, next = found * tickSpacing ∧
      found ≤ tick / tickSpacing ∧ bit (fun p => bitmap.getD p 0) found = true ∧
      ∀ c, found < c → c ≤ tick / tickSpacing → bit (fun p => bitmap.getD p 0) c = false := by
    obtain ⟨q, hq, h⟩ := bind_ok_iff.1 h
    obtain rfl := compress_ok pos hq
    rw [if_pos rfl] at h
    dsimp only at h
    split_ifs at h with nonzero
    · obtain ⟨n, hn, h⟩ := bind_ok_iff.1 h
      obtain ⟨-, rfl⟩ := i32_ok_iff.1 hn
      obtain ⟨rfl, -⟩ := Prod.mk.inj (pure_ok_iff.1 h)
      exact ⟨_, rfl, scanDown_spec (fun p => bitmap.getD p 0) rfl nonzero rfl⟩
    · obtain ⟨n, hn, h⟩ := bind_ok_iff.1 h
      cases (Prod.mk.inj (pure_ok_iff.1 h)).2
  obtain ⟨dvd, index⟩ := index_mul pos found
  refine ⟨dvd, ?_, by rw [tickBit, index]; exact set, fun t ht above below => ?_⟩
  · rwa [← index_le_iff pos dvd, index]
  · refine clear _ ?_ ((index_le_iff pos ht).2 below)
    rwa [← index_lt_iff pos dvd ht, index] at above

theorem search_up
    (h : nextInitializedTickWithinOneWord bitmap tick tickSpacing false = .ok (next, true)) :
    tickSpacing ∣ next ∧ tick < next ∧ tickBit bitmap tickSpacing next = true ∧
      ∀ t, tickSpacing ∣ t → tick < t → t < next → tickBit bitmap tickSpacing t = false := by
  obtain ⟨found, rfl, _, set, clear⟩ : ∃ found, next = found * tickSpacing ∧
      tick / tickSpacing + 1 ≤ found ∧ bit (fun p => bitmap.getD p 0) found = true ∧
      ∀ c, tick / tickSpacing + 1 ≤ c → c < found → bit (fun p => bitmap.getD p 0) c = false := by
    obtain ⟨q, hq, h⟩ := bind_ok_iff.1 h
    obtain rfl := compress_ok pos hq
    obtain ⟨_, hs, h⟩ := bind_ok_iff.1 h
    obtain ⟨-, rfl⟩ := i32_ok_iff.1 hs
    dsimp only at h
    split_ifs at h with nonzero
    · obtain ⟨n, hn, h⟩ := bind_ok_iff.1 h
      obtain ⟨-, rfl⟩ := i32_ok_iff.1 hn
      obtain ⟨rfl, -⟩ := Prod.mk.inj (pure_ok_iff.1 h)
      exact ⟨_, rfl, scanUp_spec (fun p => bitmap.getD p 0) rfl nonzero rfl⟩
    · obtain ⟨_, -, h⟩ := bind_ok_iff.1 h
      obtain ⟨n, -, h⟩ := bind_ok_iff.1 h
      cases (Prod.mk.inj (pure_ok_iff.1 h)).2
  obtain ⟨dvd, index⟩ := index_mul pos found
  refine ⟨dvd, ?_, by rw [tickBit, index]; exact set, fun t ht above below => ?_⟩
  · rw [← not_le, ← index_le_iff pos dvd]
    omega
  · refine clear _ ?_ ?_
    · rw [← not_le, ← index_le_iff pos ht] at above
      omega
    · rwa [← index_lt_iff pos ht dvd, index] at below

end ConcentratedAmm
