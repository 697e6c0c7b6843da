import Mathlib

/-!
# Bits in order

The low bits of a word, the most significant one first.  A shift register that takes words in at the
low end and gives groups of bits out at the high end keeps their order.
-/

namespace BitString

variable {w v : ℕ}

def lowBits {w : ℕ} : ℕ → BitVec w → List Bool
  | 0, _ => []
  | n + 1, x => x.getLsbD n :: lowBits n x

@[simp] theorem length_lowBits (n : ℕ) (x : BitVec w) : (lowBits n x).length = n := by
  induction n with
  | zero => rfl
  | succ n ih => rw [lowBits, List.length_cons, ih]

theorem lowBits_eq_iff {n : ℕ} {x : BitVec w} {y : BitVec v} :
    lowBits n x = lowBits n y ↔ ∀ i < n, x.getLsbD i = y.getLsbD i := by
  induction n with
  | zero => simp [lowBits]
  | succ n ih =>
    rw [lowBits, lowBits, List.cons.injEq, ih]
    refine ⟨fun ⟨top, below⟩ i h => ?_, fun h => ⟨h n n.lt_succ_self, fun i below =>
      h i (Nat.lt_succ_of_lt below)⟩⟩
    rcases Nat.lt_succ_iff_lt_or_eq.1 h with h | rfl
    · exact below i h
    · exact top

theorem lowBits_add (n m : ℕ) (x : BitVec w) :
    lowBits (n + m) x = lowBits n (x >>> m) ++ lowBits m x := by
  induction n with
  | zero => rw [zero_add, lowBits, List.nil_append]
  | succ n ih =>
    rw [Nat.succ_add, lowBits, ih, lowBits, BitVec.getLsbD_ushiftRight, Nat.add_comm m,
      List.cons_append]

/-- A word taken in at the low end comes after the bits that are there. -/
theorem lowBits_shiftLeft_or {n m : ℕ} {x y : BitVec w} (room : n + m ≤ w)
    (small : y.toNat < 2 ^ m) :
    lowBits (n + m) (x <<< m ||| y) = lowBits n x ++ lowBits m y := by
  have high (i : ℕ) : y.getLsbD (m + i) = false :=
    Nat.testBit_eq_false_of_lt (small.trans_le (Nat.pow_le_pow_right two_pos (Nat.le_add_right ..)))
  rw [lowBits_add]
  congr 1 <;> refine lowBits_eq_iff.2 fun i below => ?_
  · have inside : m + i < w := by omega
    simp [high, inside, -BitVec.getLsbD_eq_getElem]
  · simp [below]

section Blocks

variable {α : Type} {k : ℕ} {f : α → List Bool} (lengths : ∀ a, (f a).length = k)
include lengths

theorem length_blocks (xs : List α) : (xs.flatMap f).length = k * xs.length := by
  induction xs with
  | nil => rfl
  | cons _ _ ih =>
    rw [List.flatMap_cons, List.length_append, ih, lengths, List.length_cons, Nat.mul_succ,
      Nat.add_comm]

theorem blocks_injective (injective : Function.Injective f) {xs ys : List α}
    {rest rest' : List Bool} (count : xs.length = ys.length)
    (same : xs.flatMap f ++ rest = ys.flatMap f ++ rest') : xs = ys := by
  induction xs generalizing ys with
  | nil => exact (List.length_eq_zero_iff.1 count.symm).symm
  | cons x _ ih =>
    cases ys with
    | nil => cases count
    | cons y =>
      simp only [List.flatMap_cons, List.append_assoc] at same
      obtain ⟨first, others⟩ := List.append_inj same ((lengths x).trans (lengths y).symm)
      rw [injective first, ih (Nat.succ.inj count) others]

end Blocks

end BitString
