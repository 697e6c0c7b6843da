import Perigee.Soroban.Outcome

/-!
# Contract storage

A `Store` is the part of a contract's storage under one kind of key: a finite map with an executable
lookup (Mathlib's `AList`).
-/

namespace Soroban

/-- Finite maps from keys `K` to values `V`. -/
abbrev Store (K V : Type) := AList fun _ : K => V

namespace Store

variable {K V M : Type} [DecidableEq K] (s : Store K V)

/-- Read an entry, with the default of `unwrap_or`. -/
def getD (k : K) (default : V) : V := (s.lookup k).getD default

def set (k : K) (v : V) : Store K V := s.insert k v

def remove (k : K) : Store K V := s.erase k

@[simp] theorem lookup_set_self (k : K) (v : V) :
    (s.set k v).lookup k = some v := AList.lookup_insert s

theorem lookup_set_of_ne {k k' : K} (v : V) (h : k' ≠ k) :
    (s.set k v).lookup k' = s.lookup k' := AList.lookup_insert_ne h

@[simp] theorem lookup_remove_self (k : K) :
    (s.remove k).lookup k = none := AList.lookup_erase k s

theorem lookup_remove_of_ne {k k' : K} (h : k' ≠ k) :
    (s.remove k).lookup k' = s.lookup k' := AList.lookup_erase_ne h

theorem lookup_set (k k' : K) (v : V) :
    (s.set k v).lookup k' = if k' = k then some v else s.lookup k' := by
  split_ifs with h
  · rw [h, lookup_set_self]
  · exact lookup_set_of_ne s v h

theorem lookup_remove (k k' : K) :
    (s.remove k).lookup k' = if k' = k then none else s.lookup k' := by
  split_ifs with h
  · rw [h, lookup_remove_self]
  · exact lookup_remove_of_ne s h

/-- What holds of all entries and of the one written holds of all after the write. -/
theorem forall_set {s : Store K V} {P : K → V → Prop} (old : ∀ k v, s.lookup k = some v → P k v)
    {k : K} {v : V} (new : P k v) (k' : K) (v' : V) (h : (s.set k v).lookup k' = some v') :
    P k' v' := by
  rw [lookup_set] at h
  split_ifs at h with same
  · obtain rfl := Option.some.inj h
    exact same ▸ new
  · exact old k' v' h

theorem getD_set (k k' : K) (v d : V) :
    (s.set k v).getD k' d = if k' = k then v else s.getD k' d := by
  unfold getD
  rw [lookup_set]
  split_ifs <;> rfl

/-! ## Sums over all entries -/

variable [AddCommMonoid M] (f : K → V → M)

def sumBy (s : Store K V) : M := (s.entries.map fun e => f e.1 e.2).sum

omit [DecidableEq K] in
@[simp] theorem sumBy_empty : sumBy f (∅ : Store K V) = 0 := rfl

theorem mem_entries_iff (e : (_ : K) × V) :
    e ∈ s.entries ↔ s.lookup e.1 = some e.2 := AList.mem_lookup_iff.symm

omit [DecidableEq K] in
theorem sumBy_add (f g : K → V → M) (s : Store K V) :
    sumBy (fun k v => f k v + g k v) s = sumBy f s + sumBy g s := List.sum_map_add

omit [DecidableEq K] in
theorem mul_sumBy {R : Type} [NonUnitalNonAssocSemiring R] (c : R) (f : K → V → R)
    (s : Store K V) :
    c * sumBy f s = sumBy (fun k v => c * f k v) s := (List.sum_map_mul_left ..).symm

theorem sumBy_congr {f g : K → V → M} {s : Store K V}
    (h : ∀ k v, s.lookup k = some v → f k v = g k v) : sumBy f s = sumBy g s :=
  congrArg List.sum (List.map_congr_left fun e he => h _ _ ((mem_entries_iff s e).1 he))

theorem sumBy_mono [PartialOrder M] [IsOrderedAddMonoid M] {f g : K → V → M} {s : Store K V}
    (h : ∀ k v, s.lookup k = some v → f k v ≤ g k v) : sumBy f s ≤ sumBy g s :=
  List.sum_le_sum fun e he => h _ _ ((mem_entries_iff s e).1 he)

/-- What the entry under `k` contributes to `sumBy f`. -/
def share (s : Store K V) (k : K) : M := (s.lookup k).elim 0 (f k)

theorem sumBy_eq_share_add_remove (s : Store K V) (k : K) :
    sumBy f s = share f s k + sumBy f (s.remove k) := by
  change (s.entries.map _).sum = (List.dlookup k s.entries).elim 0 (f k) +
    ((s.entries.kerase k).map _).sum
  induction s.entries with
  | nil => simp
  | cons e _ ih =>
    obtain ⟨k', v⟩ := e
    by_cases h : k = k'
    · subst h
      simp [List.kerase_cons_eq]
    · rw [List.dlookup_cons_ne _ _ h, List.kerase_cons_ne h, List.map_cons, List.map_cons,
        List.sum_cons, ih]
      exact add_left_comm _ _ _

theorem sumBy_set (s : Store K V) (k : K) (v : V) :
    sumBy f (s.set k v) = f k v + sumBy f (s.remove k) := rfl

/-- Writing an entry exchanges its old contribution for the new one. -/
theorem share_add_sumBy_set (s : Store K V) (k : K) (v : V) :
    share f s k + sumBy f (s.set k v) = f k v + sumBy f s := by
  rw [sumBy_eq_share_add_remove f s k]
  exact add_left_comm _ _ _

theorem sumBy_set_fresh {f : K → V → M} {s : Store K V} {k : K} (fresh : s.lookup k = none)
    (v : V) :
    sumBy f (s.set k v) = f k v + sumBy f s := by
  rw [← share_add_sumBy_set, share, fresh, Option.elim_none, zero_add]

/-- Two sums whose contributions agree outside one key differ by the shares of that key. -/
theorem share_add_sumBy_of_agree {f g : K → V → M} (k : K)
    (agree : ∀ k' v, k' ≠ k → f k' v = g k' v) :
    share f s k + sumBy g s = share g s k + sumBy f s := by
  have rest : sumBy g (s.remove k) = sumBy f (s.remove k) := by
    refine sumBy_congr fun k' v h => ?_
    rw [lookup_remove] at h
    split_ifs at h with same
    exact (agree k' v same).symm
  rw [sumBy_eq_share_add_remove g s k, sumBy_eq_share_add_remove f s k, rest]
  exact add_left_comm _ _ _

theorem share_eq_getD (s : Store K V) (k : K) {d : V} (zero : f k d = 0) :
    share f s k = f k (s.getD k d) := by
  unfold share getD
  cases s.lookup k with
  | none => exact zero.symm
  | some => rfl

omit [DecidableEq K] in
theorem sumBy_nonneg [PartialOrder M] [IsOrderedAddMonoid M] (s : Store K V)
    (h : ∀ e ∈ s.entries, 0 ≤ f e.1 e.2) : 0 ≤ sumBy f s := by
  apply List.sum_nonneg
  intro x hx
  obtain ⟨e, he, rfl⟩ := List.mem_map.1 hx
  exact h e he

theorem share_le_sumBy [PartialOrder M] [IsOrderedAddMonoid M] (s : Store K V)
    (k : K) (h : ∀ k v, s.lookup k = some v → 0 ≤ f k v) : share f s k ≤ sumBy f s := by
  rw [sumBy_eq_share_add_remove f s k]
  refine le_add_of_nonneg_right (sumBy_nonneg f _ fun e he => ?_)
  rw [mem_entries_iff, lookup_remove] at he
  split_ifs at he
  exact h _ _ he

end Store

end Soroban
