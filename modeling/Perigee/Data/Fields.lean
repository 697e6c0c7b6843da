import Mathlib

/-!
# Texts put together from fields

A text is a list of characters.  Two ways to put fields together so that they can be told apart
again: a separator that the field does not contain, and the length of the field before it.
-/

namespace Fields

theorem cut {α : Type} {sep : α} {a b x y : List α} (ha : sep ∉ a) (hb : sep ∉ b)
    (h : a ++ sep :: x = b ++ sep :: y) : a = b ∧ x = y := by
  induction a generalizing b with
  | nil =>
    cases b with
    | nil => simpa using h
    | cons =>
      obtain ⟨rfl, -⟩ := List.cons.inj h
      simp at hb
  | cons c a ih =>
    cases b with
    | nil =>
      obtain ⟨rfl, -⟩ := List.cons.inj h
      simp at ha
    | cons =>
      obtain ⟨rfl, rest⟩ := List.cons.inj h
      obtain ⟨rfl, rfl⟩ := ih (fun m => ha (List.mem_cons_of_mem _ m))
        (fun m => hb (List.mem_cons_of_mem _ m)) rest
      exact ⟨rfl, rfl⟩

/-- A separator that one side contains once is at the same place on the other side. -/
theorem cut_once {α : Type} {sep : α} {a b x y : List α} (hb : sep ∉ b) (hy : sep ∉ y)
    (h : a ++ sep :: x = b ++ sep :: y) : a = b ∧ x = y := by
  rcases List.append_eq_append_iff.1 h with
    ⟨_ | ⟨c, between⟩, rfl, rest⟩ | ⟨_ | ⟨c, between⟩, rfl, rest⟩
  · simpa using rest
  · obtain ⟨rfl, -⟩ := List.cons.inj rest
    simp at hb
  · simpa using rest.symm
  · obtain ⟨-, rfl⟩ := List.cons.inj rest
    simp at hy

/-- The length of a text in bytes, as UTF-8. -/
def byteLength (text : List Char) : ℕ := (text.map Char.utf8Size).sum

theorem byteLength_nil : byteLength [] = 0 := rfl

theorem byteLength_cons (c : Char) (text : List Char) :
    byteLength (c :: text) = c.utf8Size + byteLength text := by
  simp [byteLength]

theorem append_inj_of_byteLength {a b x y : List Char} (length : byteLength a = byteLength b)
    (h : a ++ x = b ++ y) : a = b ∧ x = y := by
  induction a generalizing b with
  | nil =>
    cases b with
    | nil => exact ⟨rfl, h⟩
    | cons c =>
      have positive := c.utf8Size_pos
      rw [byteLength_cons, byteLength_nil] at length
      omega
  | cons c a ih =>
    cases b with
    | nil =>
      have positive := c.utf8Size_pos
      rw [byteLength_cons, byteLength_nil] at length
      omega
    | cons =>
      obtain ⟨rfl, rest⟩ := List.cons.inj h
      obtain ⟨rfl, rfl⟩ := ih (Nat.add_left_cancel length) rest
      exact ⟨rfl, rfl⟩

def decimal (n : ℕ) : List Char := Nat.toDigits 10 n

theorem decimal_injective : Function.Injective decimal := by
  intro m n h
  rw [← Nat.ofDigitChars_toDigits (b := 10) (n := m) (by decide) (by decide),
    ← Nat.ofDigitChars_toDigits (b := 10) (n := n) (by decide) (by decide)]
  exact congrArg (fun digits => Nat.ofDigitChars 10 digits 0) h

theorem colon_notMem_decimal (n : ℕ) : ':' ∉ decimal n := by
  intro mem
  exact absurd (Nat.isDigit_of_mem_toDigits (by decide) (by decide) mem) (by decide)

/-- A field after its length in bytes. -/
def sized (text : List Char) : List Char := decimal (byteLength text) ++ ':' :: text

theorem sized_inj {a b x y : List Char} (h : sized a ++ x = sized b ++ y) : a = b ∧ x = y := by
  simp only [sized, List.append_assoc] at h
  obtain ⟨length, rest⟩ := cut (colon_notMem_decimal _) (colon_notMem_decimal _) h
  exact append_inj_of_byteLength (decimal_injective length) rest

end Fields
