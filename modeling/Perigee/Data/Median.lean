import Mathlib

/-!
# Sorting by neighbours, and medians

`bubbleSort` compares neighbours in passes that get shorter; it returns a sorted permutation.
-/

namespace Median

variable {α : Type} [LinearOrder α]

/-! ## Bubble sort -/

/-- A pass of `k` comparisons of neighbours; the larger of each pair moves on. -/
def bubble : ℕ → List α → List α
  | k + 1, a :: b :: rest =>
    if b < a then b :: bubble k (a :: rest) else a :: bubble k (b :: rest)
  | _, l => l

/-- Passes of `k - 1`, `k - 2`, …, `0` comparisons. -/
def passes : ℕ → List α → List α
  | 0, l => l
  | k + 1, l => passes k (bubble k l)

def bubbleSort (l : List α) : List α := passes l.length l

/-- A pass over the first `k + 1` elements brings a largest one to their end. -/
theorem bubble_spec (k : ℕ) (xs ys : List α) (length : xs.length = k + 1) :
    ∃ zs m, bubble k (xs ++ ys) = zs ++ m :: ys ∧ (zs ++ [m]).Perm xs ∧ ∀ z ∈ zs, z ≤ m := by
  induction k generalizing xs with
  | zero =>
    obtain ⟨m, rfl⟩ := List.length_eq_one_iff.1 length
    exact ⟨[], m, rfl, .refl _, nofun⟩
  | succ k ih =>
    obtain ⟨a, b, rest, rfl⟩ : ∃ a b rest, xs = a :: b :: rest := by
      match xs, length with
      | a :: b :: rest, _ => exact ⟨a, b, rest, rfl⟩
    have bound {c : α} {zs : List α} {m : α} (perm : (zs ++ [m]).Perm (c :: rest))
        (below : ∀ z ∈ zs, z ≤ m) : c ≤ m := by
      have mem : c ∈ zs ++ [m] := perm.mem_iff.2 List.mem_cons_self
      rw [List.mem_append, List.mem_singleton] at mem
      rcases mem with old | rfl
      · exact below c old
      · exact le_rfl
    by_cases swap : b < a
    · obtain ⟨zs, m, result, perm, below⟩ := ih (a :: rest) (by simpa using length)
      refine ⟨b :: zs, m, ?_, (perm.cons b).trans (.swap a b rest), ?_⟩
      · rw [List.cons_append, List.cons_append, bubble, if_pos swap, ← List.cons_append, result]
        rfl
      · exact List.forall_mem_cons.2 ⟨swap.le.trans (bound perm below), below⟩
    · obtain ⟨zs, m, result, perm, below⟩ := ih (b :: rest) (by simpa using length)
      refine ⟨a :: zs, m, ?_, perm.cons a, ?_⟩
      · rw [List.cons_append, List.cons_append, bubble, if_neg swap, ← List.cons_append, result]
        rfl
      · exact List.forall_mem_cons.2 ⟨(not_lt.1 swap).trans (bound perm below), below⟩

/-- Passes over the first `k` elements sort a list whose rest is sorted and above them. -/
theorem passes_spec (k : ℕ) (xs ys : List α) (length : xs.length = k) (sorted : ys.Pairwise (· ≤ ·))
    (above : ∀ x ∈ xs, ∀ y ∈ ys, x ≤ y) :
    (passes k (xs ++ ys)).Pairwise (· ≤ ·) ∧ (passes k (xs ++ ys)).Perm (xs ++ ys) := by
  induction k generalizing xs ys with
  | zero =>
    obtain rfl := List.length_eq_zero_iff.1 length
    exact ⟨sorted, .refl _⟩
  | succ k ih =>
    obtain ⟨zs, m, result, perm, below⟩ := bubble_spec k xs ys length
    have mem {z : α} (h : z ∈ zs ++ [m]) : z ∈ xs := perm.mem_iff.1 h
    have count : zs.length = k := by
      have := perm.length_eq
      simp only [List.length_append, List.length_singleton] at this
      omega
    have next := ih zs (m :: ys) count ?_ ?_
    · rw [passes, result]
      refine ⟨next.1, next.2.trans ?_⟩
      have regroup : zs ++ m :: ys = (zs ++ [m]) ++ ys := by simp
      rw [regroup]
      exact perm.append_right ys
    · exact List.pairwise_cons.2 ⟨fun y hy => above m (mem (by simp)) y hy, sorted⟩
    · intro z hz y hy
      rcases List.mem_cons.1 hy with rfl | hy
      · exact below z hz
      · exact above z (mem (List.mem_append_left _ hz)) y hy

theorem bubbleSort_sorted (l : List α) : (bubbleSort l).Pairwise (· ≤ ·) := by
  have := (passes_spec l.length l [] rfl .nil fun _ _ _ => nofun).1
  rwa [List.append_nil] at this

theorem bubbleSort_perm (l : List α) : (bubbleSort l).Perm l := by
  have := (passes_spec l.length l [] rfl .nil fun _ _ _ => nofun).2
  rwa [List.append_nil] at this

/-! ## The middle -/

/-- At least half of the elements are at most `m`, and at least half are at least `m`. -/
structure Central (l : List α) (m : α) : Prop where
  below : l.length ≤ 2 * l.countP (· ≤ m)
  above : l.length ≤ 2 * l.countP (m ≤ ·)

/-- Some element of the list is at most `m`, and some is at least `m`. -/
def Between (l : List α) (m : α) : Prop := (∃ x ∈ l, x ≤ m) ∧ ∃ x ∈ l, m ≤ x

variable {l : List α} {low high m : α} {i j : ℕ}

theorem countP_le_of_sorted (sorted : l.Pairwise (· ≤ ·)) (there : l[i]? = some low)
    (le : low ≤ m) : i + 1 ≤ l.countP (· ≤ m) := by
  obtain ⟨below, rfl⟩ := List.getElem?_eq_some_iff.1 there
  calc i + 1 = (l.take (i + 1)).length := by rw [List.length_take]; omega
    _ = (l.take (i + 1)).countP (· ≤ m) := by
      refine (List.countP_eq_length.2 fun x mem => ?_).symm
      obtain ⟨k, _, rfl⟩ := List.mem_take_iff_getElem.1 mem
      have order : l[k] ≤ l[i] := sorted.rel_get_of_le (a := ⟨k, by omega⟩) (b := ⟨i, below⟩)
        (by simp only [Fin.mk_le_mk]; omega)
      exact decide_eq_true (order.trans le)
    _ ≤ l.countP (· ≤ m) := (List.take_sublist _ _).countP_le

theorem countP_ge_of_sorted (sorted : l.Pairwise (· ≤ ·)) (there : l[j]? = some high)
    (le : m ≤ high) : l.length - j ≤ l.countP (m ≤ ·) := by
  obtain ⟨below, rfl⟩ := List.getElem?_eq_some_iff.1 there
  calc l.length - j = (l.drop j).length := by rw [List.length_drop]
    _ = (l.drop j).countP (m ≤ ·) := by
      refine (List.countP_eq_length.2 fun x mem => ?_).symm
      obtain ⟨k, _, rfl⟩ := List.mem_drop_iff_getElem.1 mem
      have order : l[j] ≤ l[j + k] :=
        sorted.rel_get_of_le (a := ⟨j, below⟩) (b := ⟨j + k, by omega⟩) (by simp)
      exact decide_eq_true (le.trans order)
    _ ≤ l.countP (m ≤ ·) := (List.drop_sublist _ _).countP_le

theorem central_of_sorted (sorted : l.Pairwise (· ≤ ·)) (lower : l[i]? = some low)
    (upper : l[j]? = some high) (first : l.length ≤ 2 * (i + 1)) (last : 2 * j ≤ l.length)
    (le : low ≤ m) (ge : m ≤ high) : Central l m := by
  have below := countP_le_of_sorted sorted lower le
  have above := countP_ge_of_sorted sorted upper ge
  exact ⟨by omega, by omega⟩

theorem Central.perm {l' : List α} (central : Central l m) (perm : l.Perm l') : Central l' m := by
  obtain ⟨below, above⟩ := central
  rw [perm.length_eq, perm.countP_eq] at below above
  exact ⟨below, above⟩

omit [LinearOrder α] in
theorem exists_of_minority {p : α → Bool} {honest adversarial : List α}
    (half : (honest ++ adversarial).length ≤ 2 * (honest ++ adversarial).countP p)
    (minority : 2 * adversarial.length < (honest ++ adversarial).length) :
    ∃ x ∈ honest, p x = true := by
  have some : 0 < honest.countP p := by
    rw [List.countP_append] at half
    have : adversarial.countP p ≤ adversarial.length := List.countP_le_length
    omega
  exact List.countP_pos_iff.1 some

/-- A minority of the elements does not move a central value away from the rest. -/
theorem Central.between {honest adversarial : List α} (central : Central l m)
    (split : l.Perm (honest ++ adversarial)) (minority : 2 * adversarial.length < l.length) :
    Between honest m := by
  obtain ⟨below, above⟩ := central.perm split
  rw [split.length_eq] at minority
  obtain ⟨x, mem, le⟩ := exists_of_minority below minority
  obtain ⟨y, mem', ge⟩ := exists_of_minority above minority
  exact ⟨⟨x, mem, of_decide_eq_true le⟩, y, mem', of_decide_eq_true ge⟩

theorem Central.between_self (central : Central l m) (nonempty : 0 < l.length) : Between l m := by
  have split : l.Perm (l ++ []) := by rw [List.append_nil]
  exact central.between split (by simpa using nonempty)

end Median
