import Mathlib

/-!
# Bit arrays in 64-bit words

An array of bits indexed by the integers, kept in words of 64 bits: bit `c` is bit `c % 64` of word
`c / 64`.
-/

namespace BitScan

def bit (words : ℤ → BitVec 64) (c : ℤ) : Bool := (words (c / 64)).getLsbD (c % 64).toNat

/-- The bits up to and including `b`. -/
def lowMask (b : ℕ) : BitVec 64 := (1#64 <<< b) - 1 + (1#64 <<< b)

/-- The bits from `b` on. -/
def highMask (b : ℕ) : BitVec 64 := ~~~((1#64 <<< b) - 1)

theorem lowMask_eq : ∀ b < 64, lowMask b = BitVec.allOnes 64 >>> (63 - b) := by
  decide

theorem highMask_eq : ∀ b < 64, highMask b = BitVec.allOnes 64 <<< b := by
  decide

theorem getLsbD_and_lowMask (word : BitVec 64) {b : ℕ} (hb : b < 64) (i : ℕ) :
    (word &&& lowMask b).getLsbD i = (word.getLsbD i && decide (i ≤ b)) := by
  rw [BitVec.getLsbD_and, lowMask_eq b hb, BitVec.getLsbD_ushiftRight, BitVec.getLsbD_allOnes]
  congr 1
  exact decide_eq_decide.2 (by omega)

theorem getLsbD_and_highMask (word : BitVec 64) {b : ℕ} (hb : b < 64) {i : ℕ} (hi : i < 64) :
    (word &&& highMask b).getLsbD i = (word.getLsbD i && decide (b ≤ i)) := by
  rw [BitVec.getLsbD_and, highMask_eq b hb, BitVec.getLsbD_shiftLeft, BitVec.getLsbD_allOnes]
  by_cases h : b ≤ i
  · simp [h, hi, show i - b < 64 by omega]
  · simp [h]

theorem getLsbD_of_clz_lt {word : BitVec 64} {i : ℕ} (h : 63 - word.clz.toNat < i) :
    word.getLsbD i = false := by
  have bound := word.toNat_lt_two_pow_sub_clz
  refine Nat.testBit_eq_false_of_lt (bound.trans_le (Nat.pow_le_pow_right two_pos ?_))
  omega

variable {words : ℤ → BitVec 64}

theorem bit_index (p : ℤ) {i : ℕ} (hi : i < 64) : bit words (p * 64 + i) = (words p).getLsbD i := by
  unfold bit
  congr 1
  · congr 1
    omega
  · omega

/-- The highest set bit of the masked word is the nearest set bit at or below the index. -/
theorem scanDown_spec (words : ℤ → BitVec 64) {c : ℤ} {masked : BitVec 64}
    (hm : masked = words (c / 64) &&& lowMask (c % 64).toNat) (nonzero : masked ≠ 0) {found : ℤ}
    (hf : found = c / 64 * 64 + ((63 - masked.clz.toNat : ℕ) : ℤ)) :
    found ≤ c ∧ bit words found = true ∧ ∀ c', found < c' → c' ≤ c → bit words c' = false := by
  have small : (c % 64).toNat < 64 := by omega
  have top := BitVec.getLsbD_true_clz_of_ne_zero (by decide) nonzero
  have highest : ∀ i, 63 - masked.clz.toNat < i → masked.getLsbD i = false :=
    fun i => getLsbD_of_clz_lt
  generalize 63 - masked.clz.toNat = i at hf top highest
  rw [hm, getLsbD_and_lowMask _ small, Bool.and_eq_true, decide_eq_true_eq] at top
  obtain ⟨set, _⟩ := top
  subst hf
  refine ⟨by omega, by rw [bit_index _ (by omega)]; exact set, fun c' _ _ => ?_⟩
  have clear := highest (c' % 64).toNat (by omega)
  rw [hm, getLsbD_and_lowMask _ small, decide_eq_true (by omega), Bool.and_true] at clear
  rw [bit, show c' / 64 = c / 64 by omega]
  exact clear

/-- The lowest set bit of the masked word is the nearest set bit at or above the index. -/
theorem scanUp_spec (words : ℤ → BitVec 64) {c : ℤ} {masked : BitVec 64}
    (hm : masked = words (c / 64) &&& highMask (c % 64).toNat) (nonzero : masked ≠ 0) {found : ℤ}
    (hf : found = c / 64 * 64 + (masked.ctz.toNat : ℤ)) :
    c ≤ found ∧ bit words found = true ∧ ∀ c', c ≤ c' → c' < found → bit words c' = false := by
  have small : (c % 64).toNat < 64 := by omega
  have bottom := BitVec.getLsbD_true_ctz_of_ne_zero nonzero
  have lowest : ∀ i, i < masked.ctz.toNat → masked.getLsbD i = false :=
    fun i => BitVec.getLsbD_false_of_lt_ctz
  generalize masked.ctz.toNat = i at hf bottom lowest
  have hi : i < 64 := BitVec.lt_of_getLsbD bottom
  rw [hm, getLsbD_and_highMask _ small hi, Bool.and_eq_true, decide_eq_true_eq] at bottom
  obtain ⟨set, _⟩ := bottom
  subst hf
  refine ⟨by omega, by rw [bit_index _ hi]; exact set, fun c' _ _ => ?_⟩
  have clear := lowest (c' % 64).toNat (by omega)
  rw [hm, getLsbD_and_highMask _ small (by omega), decide_eq_true (by omega), Bool.and_true]
    at clear
  rw [bit, show c' / 64 = c / 64 by omega]
  exact clear

theorem bit_flip (c c' : ℤ) :
    bit (Function.update words (c / 64) (words (c / 64) ^^^ (1#64 <<< (c % 64).toNat))) c' =
      (bit words c' ^^ decide (c' = c)) := by
  have one : ∀ i, i < 64 →
      (1#64 <<< (c % 64).toNat).getLsbD i = decide (i = (c % 64).toNat) := by
    intro i hi
    by_cases lt : i < (c % 64).toNat
    · simp [lt, lt.ne]
    · simp [hi, lt, show i - (c % 64).toNat = 0 ↔ i = (c % 64).toNat by omega]
  unfold bit
  by_cases same : c' / 64 = c / 64
  · rw [same, Function.update_self, BitVec.getLsbD_xor, one _ (by omega)]
    congr 1
    exact decide_eq_decide.2 (by omega)
  · rw [Function.update_of_ne same, decide_eq_false (fun h => same (by rw [h])), Bool.xor_false]

end BitScan
