import Perigee.Soroban.Outcome

/-!
# Lists edited in place

`insertIdx` at `findIdx` inserts before the first element with a property, and keeps a sorted list
sorted.  `sweep` visits the elements from the left while a condition holds; a visit replaces its
element and advances the index, or removes it and stays.
-/

namespace EditedList

variable {α σ ε : Type}

/-! ## Sorted insertion -/

theorem perm_insertIdx_findIdx (p : α → Bool) (a : α) (l : List α) :
    (l.insertIdx (l.findIdx p) a).Perm (a :: l) :=
  List.perm_insertIdx _ _ List.findIdx_le_length

/-- Inserting before the first element with `p` keeps `R`, if `a` goes after the elements without
`p` and before those with `p`, and all elements after one with `p` have `p`. -/
theorem pairwise_insertIdx_findIdx {R : α → α → Prop} {p : α → Bool} {a : α} {l : List α}
    (sorted : l.Pairwise R) (before : ∀ x ∈ l, p x = false → R x a)
    (after : ∀ x ∈ l, p x = true → R a x) (up : ∀ x y, R x y → p x = true → p y = true) :
    (l.insertIdx (l.findIdx p) a).Pairwise R := by
  induction l with
  | nil => simp
  | cons x l ih =>
    obtain ⟨first, sorted⟩ := List.pairwise_cons.1 sorted
    rw [List.findIdx_cons]
    cases hx : p x with
    | true =>
      have least : ∀ y ∈ x :: l, R a y := by
        intro y hy
        refine after y hy ?_
        rcases List.mem_cons.1 hy with rfl | hy
        · exact hx
        · exact up x y (first y hy) hx
      exact .cons least (.cons first sorted)
    | false =>
      have inner := ih sorted (fun y hy => before y (.tail _ hy)) (fun y hy => after y (.tail _ hy))
      refine .cons (fun y hy => ?_) inner
      rcases List.mem_cons.1 ((perm_insertIdx_findIdx p a l).mem_iff.1 hy) with rfl | hy
      · exact before x (.head _) hx
      · exact first y hy

theorem pairwise_erase [DecidableEq α] {R : α → α → Prop} (symm : ∀ a b, R a b → R b a)
    {a : α} {l : List α} (pairwise : l.Pairwise R) (mem : a ∈ l) :
    (∀ b ∈ l.erase a, R a b) ∧ (l.erase a).Pairwise R :=
  List.pairwise_cons.1 (((List.perm_cons_erase mem).pairwise_iff fun h => symm _ _ h).1 pairwise)

/-! ## Sweeping -/

/-- Visit the element at index `i` while `go` holds.  Every visit removes an element or advances
the index, so a bound of the elements at and after `i` is never reached. -/
def sweep (go : σ → Bool) (visit : α → σ → Except ε (Option α × σ)) :
    ℕ → ℕ → List α → σ → Except ε (List α × σ)
  | 0, _, l, s => .ok (l, s)
  | fuel + 1, i, l, s =>
    if go s then
      match l[i]? with
      | none => .ok (l, s)
      | some x =>
        match visit x s with
        | .error e => .error e
        | .ok (some y, s) => sweep go visit fuel (i + 1) (l.set i y) s
        | .ok (none, s) => sweep go visit fuel i (l.eraseIdx i) s
    else .ok (l, s)

/-- `Swept go visit l s l' s'`: visiting `l` from the left leads from `s` to `s'` and leaves
`l'`. -/
inductive Swept (go : σ → Bool) (visit : α → σ → Except ε (Option α × σ)) :
    List α → σ → List α → σ → Prop where
  | nil {s : σ} : Swept go visit [] s [] s
  | stop {l : List α} {s : σ} : go s = false → Swept go visit l s l s
  | visit {x : α} {y : Option α} {l l' : List α} {s s₁ s₂ : σ} : go s = true →
      visit x s = .ok (y, s₁) → Swept go visit l s₁ l' s₂ →
      Swept go visit (x :: l) s (y.toList ++ l') s₂

variable {go : σ → Bool} {visit : α → σ → Except ε (Option α × σ)}

/-- The sweep leaves the elements before its index alone and sweeps the others. -/
theorem swept_of_sweep {fuel : ℕ} (done : List α) {l l' : List α} {s s' : σ}
    (bound : l.length ≤ fuel)
    (h : sweep go visit fuel done.length (done ++ l) s = .ok (l', s')) :
    ∃ rest, l' = done ++ rest ∧ Swept go visit l s rest s' := by
  induction fuel generalizing done l s with
  | zero =>
    obtain rfl : l = [] := List.length_eq_zero_iff.1 (by omega)
    cases h
    exact ⟨[], rfl, .nil⟩
  | succ fuel ih =>
    rw [sweep] at h
    cases hs : go s with
    | false =>
      rw [hs] at h
      cases h
      exact ⟨l, rfl, .stop hs⟩
    | true =>
      simp only [hs] at h
      cases l with
      | nil =>
        simp only [List.append_nil, List.getElem?_length] at h
        cases h
        exact ⟨[], (List.append_nil _).symm, .nil⟩
      | cons x l =>
        have bound : l.length ≤ fuel := by
          simpa using bound
        simp only [List.getElem?_append_right le_rfl, Nat.sub_self, List.getElem?_cons_zero] at h
        rcases visited : visit x s with e | ⟨_ | y, _⟩
        · simp only [visited] at h
          cases h
        · simp only [visited, List.eraseIdx_append_of_length_le le_rfl, Nat.sub_self] at h
          obtain ⟨rest, rfl, swept⟩ := ih done bound h
          exact ⟨rest, rfl, .visit hs visited swept⟩
        · simp only [visited, List.set_append_right _ _ le_rfl, Nat.sub_self,
            List.set_cons_zero] at h
          have advanced : done.length + 1 = (done ++ [y]).length := by simp
          rw [List.append_cons done y l, advanced] at h
          obtain ⟨rest, rfl, swept⟩ := ih (done ++ [y]) bound h
          exact ⟨y :: rest, by simp, .visit hs visited swept⟩

end EditedList
