import Mathlib

/-!
# Splitting an amount by weights

An amount `t` is split by weights that sum to `d`; each part is rounded down.
-/

namespace Split

variable {d t : ℤ} {ws : List ℤ}

def part (d t w : ℤ) : ℤ := (t * w).tdiv d

theorem part_nonneg {w : ℤ} (hd : 0 < d) (ht : 0 ≤ t) (hw : 0 ≤ w) : 0 ≤ part d t w :=
  Int.tdiv_nonneg (mul_nonneg ht hw) hd.le

theorem mul_part (w : ℤ) : d * part d t w + (t * w).tmod d = t * w := Int.mul_tdiv_add_tmod _ _

theorem mul_sum_part (ws : List ℤ) :
    d * (ws.map (part d t)).sum + (ws.map fun w => (t * w).tmod d).sum = t * ws.sum := by
  induction ws with
  | nil => simp
  | cons w _ ih =>
    simp only [List.map_cons, List.sum_cons]
    linear_combination ih + mul_part (d := d) (t := t) w

theorem tmod_nonneg_of_mem (ht : 0 ≤ t) (hws : ∀ w ∈ ws, 0 ≤ w) :
    ∀ r ∈ ws.map fun w => (t * w).tmod d, 0 ≤ r := by
  intro r hr
  obtain ⟨w, hw, rfl⟩ := List.mem_map.1 hr
  exact Int.tmod_nonneg d (mul_nonneg ht (hws w hw))

section Whole

variable (hd : 0 < d) (whole : ws.sum = d)

include hd whole

theorem sum_part_le (ht : 0 ≤ t) (hws : ∀ w ∈ ws, 0 ≤ w) : (ws.map (part d t)).sum ≤ t := by
  have split := mul_sum_part (d := d) (t := t) ws
  have rest := List.sum_nonneg (tmod_nonneg_of_mem (d := d) ht hws)
  nlinarith

theorem lt_sum_part_add : t < (ws.map (part d t)).sum + ws.length := by
  have split := mul_sum_part (d := d) (t := t) ws
  have rest : (ws.map fun w => (t * w).tmod d).sum ≤ ws.length * (d - 1) := by
    have bound : ∀ r ∈ ws.map fun w => (t * w).tmod d, r ≤ d - 1 := by
      intro r hr
      obtain ⟨w, -, rfl⟩ := List.mem_map.1 hr
      have := Int.tmod_lt_of_pos (t * w) hd
      omega
    simpa using List.sum_le_card_nsmul _ (d - 1) bound
  have some : 0 < (ws.length : ℤ) := by
    rcases ws with _ | ⟨w, ws⟩
    · simp at whole
      omega
    · simp
  rw [whole] at split
  nlinarith

theorem sum_part_eq_iff (ht : 0 ≤ t) (hws : ∀ w ∈ ws, 0 ≤ w) :
    (ws.map (part d t)).sum = t ↔ ∀ w ∈ ws, d ∣ t * w := by
  have split := mul_sum_part (d := d) (t := t) ws
  rw [whole] at split
  have zero : (ws.map (part d t)).sum = t ↔ (ws.map fun w => (t * w).tmod d).sum = 0 := by
    constructor
    · intro h
      rw [h] at split
      linarith
    · intro h
      have scaled : d * (ws.map (part d t)).sum = d * t := by linarith
      exact mul_left_cancel₀ hd.ne' scaled
  rw [zero]
  constructor
  · intro h w hw
    apply Int.dvd_of_tmod_eq_zero
    exact List.all_zero_of_le_zero_le_of_sum_eq_zero (tmod_nonneg_of_mem ht hws) h
      (List.mem_map_of_mem hw)
  · intro h
    apply List.sum_eq_zero
    intro r hr
    obtain ⟨w, hw, rfl⟩ := List.mem_map.1 hr
    exact Int.tmod_eq_zero_of_dvd (h w hw)

end Whole

end Split
