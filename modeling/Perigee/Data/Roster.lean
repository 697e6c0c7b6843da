import Mathlib

/-!
# Marks on a list of members

A bitmap marks members of a list by their positions.
-/

namespace Roster

variable {α : Type} {width : ℕ} {bitmap : BitVec width} {members : List α} {P : α → Prop}

/-! ## Counting bits -/

/-- Add up the lowest bit and shift it out until nothing is left, for at most `fuel` rounds. -/
def countOnes : ℕ → BitVec width → ℕ
  | 0, _ => 0
  | fuel + 1, n =>
    if n = 0 then 0 else (n &&& BitVec.ofNat width 1).toNat + countOnes fuel (n >>> 1)

theorem toNat_and_one (n : BitVec width) :
    (n &&& BitVec.ofNat width 1).toNat = (n.getLsbD 0).toNat := by
  rw [BitVec.toNat_and, BitVec.toNat_ofNat, BitVec.getLsbD]
  rcases Nat.eq_zero_or_pos width with rfl | positive
  · have empty : n.toNat = 0 := by have := n.isLt; omega
    simp [empty]
  · rw [Nat.mod_eq_of_lt (Nat.one_lt_two_pow positive.ne')]
    rcases Nat.mod_two_eq_zero_or_one n.toNat with h | h <;> simp [h]

theorem countOnes_eq (fuel : ℕ) (n : BitVec width) :
    countOnes fuel n = ∑ i ∈ Finset.range fuel, (n.getLsbD i).toNat := by
  induction fuel generalizing n with
  | zero => rfl
  | succ _ ih =>
    rw [countOnes, Finset.sum_range_succ']
    split_ifs with empty
    · simp [empty]
    · have shifted (i : ℕ) : (n >>> 1).getLsbD i = n.getLsbD (i + 1) := by
        rw [BitVec.getLsbD_ushiftRight, Nat.add_comm]
      rw [ih, toNat_and_one, Nat.add_comm]
      simp only [shifted]

theorem countOnes_eq_zero_iff : countOnes width bitmap = 0 ↔ bitmap = 0 := by
  rw [countOnes_eq, Finset.sum_eq_zero_iff]
  constructor
  · intro unset
    refine BitVec.eq_of_getLsbD_eq fun i below => ?_
    have := unset i (Finset.mem_range.2 below)
    simpa using this
  · rintro rfl i -
    simp

/-! ## Marked members -/

/-- The members at the set bits are those with the property `P`. -/
structure Marks (bitmap : BitVec width) (members : List α) (P : α → Prop) : Prop where
  within : ∀ i, bitmap.getLsbD i = true → i < members.length
  marked : ∀ i a, members[i]? = some a → (bitmap.getLsbD i = true ↔ P a)

namespace Marks

theorem zero (members : List α) : Marks (0 : BitVec width) members fun _ => False :=
  ⟨fun i h => by simp at h, fun i a _ => by simp⟩

theorem congr {Q : α → Prop} (marks : Marks bitmap members P) (same : ∀ a, P a ↔ Q a) :
    Marks bitmap members Q :=
  ⟨marks.within, fun i a h => (marks.marked i a h).trans (same a)⟩

theorem set (marks : Marks bitmap members P) (distinct : members.Nodup) {i : ℕ} {a : α}
    (member : members[i]? = some a) (fits : i < width) :
    Marks (bitmap ||| BitVec.ofNat width 1 <<< i) members fun b => b = a ∨ P b := by
  have bit (j : ℕ) : (bitmap ||| BitVec.ofNat width 1 <<< i).getLsbD j = true ↔
      j = i ∨ bitmap.getLsbD j = true := by
    rw [BitVec.getLsbD_or, BitVec.getLsbD_shiftLeft, BitVec.getLsbD_one, Bool.or_eq_true]
    simp only [Bool.and_eq_true, decide_eq_true_eq, Bool.not_eq_true', decide_eq_false_iff_not]
    constructor
    · rintro (h | h)
      · exact .inr h
      · exact .inl (by omega)
    · rintro (rfl | h)
      · exact .inr ⟨⟨fits, lt_irrefl _⟩, by omega, by omega⟩
      · exact .inl h
  constructor
  · intro j set
    rcases (bit j).1 set with rfl | old
    · exact (List.getElem?_eq_some_iff.1 member).1
    · exact marks.within j old
  · intro j b there
    rw [bit, marks.marked j b there]
    have positions : j = i ↔ b = a := by
      constructor
      · rintro rfl
        exact Option.mem_unique there member
      · rintro rfl
        have below : j < members.length := (List.getElem?_eq_some_iff.1 there).1
        exact (List.getElem?_inj below distinct).1 (there.trans member.symm)
    rw [positions]

theorem count_le [DecidableEq α] [DecidablePred P] (marks : Marks bitmap members P)
    (distinct : members.Nodup) :
    countOnes width bitmap ≤ (members.toFinset.filter P).card := by
  rw [countOnes_eq]
  have card : ∑ i ∈ Finset.range width, (bitmap.getLsbD i).toNat =
      ((Finset.range width).filter fun i => bitmap.getLsbD i = true).card := by
    rw [Finset.card_filter]
    refine Finset.sum_congr rfl fun i _ => ?_
    cases bitmap.getLsbD i <;> rfl
  rw [card, ← Finset.card_image_of_injective (members.toFinset.filter P) (Option.some_injective α)]
  refine Finset.card_le_card_of_injOn (fun i => members[i]?) ?_ ?_
  · intro i set
    obtain ⟨-, set⟩ := Finset.mem_filter.1 set
    have below := marks.within i set
    have there : members[i]? = some members[i] := List.getElem?_eq_getElem below
    refine Finset.mem_coe.2 (Finset.mem_image.2 ⟨members[i], ?_, there.symm⟩)
    refine Finset.mem_filter.2 ⟨List.mem_toFinset.2 (List.getElem_mem below), ?_⟩
    exact (marks.marked i _ there).1 set
  · intro i set j _ same
    obtain ⟨-, set⟩ := Finset.mem_filter.1 (Finset.mem_coe.1 set)
    exact (List.getElem?_inj (marks.within i set) distinct).1 same

theorem not_of_zero (marks : Marks (0 : BitVec width) members P) {a : α} (member : a ∈ members) :
    ¬ P a := by
  obtain ⟨i, there⟩ := List.getElem?_of_mem member
  rw [← marks.marked i a there]
  simp

end Marks

end Roster
