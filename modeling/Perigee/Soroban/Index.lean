import Perigee.Soroban.Store

/-!
# Index lists

A contract that keeps a relation as flags often keeps, for every left side, the list of its right
sides too.  `Lists index R` says that the lists of `index` hold what `R` relates, without
repetitions; `Lists.push` and `Lists.drop` say how a write changes `R`.
-/

namespace Soroban.Store

variable {K V : Type} [DecidableEq K] (s : Store K V)

def has (k : K) : Bool := (s.lookup k).isSome

/-- Read a list; a missing one is empty. -/
def readList (s : Store K (List V)) (k : K) : List V := s.getD k []

/-- Write a list; an empty one is deleted. -/
def writeList (s : Store K (List V)) (k : K) (list : List V) : Store K (List V) :=
  if list.isEmpty then s.remove k else s.set k list

@[simp] theorem has_empty (k : K) : (∅ : Store K V).has k = false := rfl

@[simp] theorem has_set_iff (k k' : K) (v : V) :
    (s.set k v).has k' = true ↔ k' = k ∨ s.has k' = true := by
  unfold has
  rw [lookup_set]
  split_ifs with same <;> simp [same]

@[simp] theorem has_remove_iff (k k' : K) :
    (s.remove k).has k' = true ↔ k' ≠ k ∧ s.has k' = true := by
  unfold has
  rw [lookup_remove]
  split_ifs with same <;> simp [same]

theorem forall_has_set {L : Type} [DecidableEq L] {s : Store (K × L) V} {P : K → L → Prop}
    (old : ∀ a b, s.has (a, b) = true → P a b) {a : K} {b : L} {v : V} (new : P a b) (a' : K)
    (b' : L) (h : (s.set (a, b) v).has (a', b') = true) : P a' b' := by
  rcases (has_set_iff ..).1 h with same | h
  · obtain ⟨rfl, rfl⟩ := Prod.mk.inj same
    exact new
  · exact old a' b' h

theorem lookup_set_eq (k : K) (v : V) :
    (fun k' => (s.set k v).lookup k') = Function.update (fun k' => s.lookup k') k (some v) := by
  funext k'
  rw [lookup_set, Function.update_apply]

theorem lookup_remove_eq (k : K) :
    (fun k' => (s.remove k).lookup k') = Function.update (fun k' => s.lookup k') k none := by
  funext k'
  rw [lookup_remove, Function.update_apply]

theorem has_set (k : K) (v : V) : (s.set k v).has = Function.update s.has k true := by
  funext k'
  rw [Bool.eq_iff_iff, Function.update_apply]
  split_ifs with same <;> simp [same]

theorem has_remove (k : K) : (s.remove k).has = Function.update s.has k false := by
  funext k'
  rw [Bool.eq_iff_iff, Function.update_apply]
  split_ifs with same <;> simp [same]

theorem readList_writeList (s : Store K (List V)) (k k' : K) (list : List V) :
    (s.writeList k list).readList k' = if k' = k then list else s.readList k' := by
  unfold writeList readList
  by_cases empty : list.isEmpty = true
  · rw [if_pos empty, getD, lookup_remove, List.isEmpty_iff.1 empty]
    split_ifs <;> rfl
  · rw [if_neg empty, getD_set]

/-- The lists of the index hold what the relation relates, each once. -/
def Lists (index : Store K (List V)) (R : K → V → Prop) : Prop :=
  ∀ k, (index.readList k).Nodup ∧ ∀ v, v ∈ index.readList k ↔ R k v

namespace Lists

variable {index : Store K (List V)} {R R' : K → V → Prop}

theorem congr (lists : Lists index R) (same : ∀ k v, R k v ↔ R' k v) : Lists index R' :=
  fun k => ⟨(lists k).1, fun v => ((lists k).2 v).trans (same k v)⟩

theorem empty : Lists (∅ : Store K (List V)) fun _ _ => False :=
  fun _ => ⟨List.nodup_nil, fun _ => iff_of_false List.not_mem_nil id⟩

theorem push (lists : Lists index R) {k : K} {v : V} (fresh : ¬ R k v) :
    Lists (index.writeList k (index.readList k ++ [v])) fun k' v' => k' = k ∧ v' = v ∨ R k' v' := by
  intro k'
  rw [readList_writeList]
  split_ifs with same
  · subst same
    obtain ⟨nodup, mem⟩ := lists k'
    constructor
    · rw [List.nodup_append]
      refine ⟨nodup, List.nodup_singleton v, fun a there b own => ?_⟩
      rintro rfl
      rw [List.mem_singleton.1 own, mem] at there
      exact fresh there
    · intro v'
      rw [List.mem_append, mem, List.mem_singleton]
      tauto
  · refine ⟨(lists k').1, fun v' => ((lists k').2 v').trans ?_⟩
    simp [same]

theorem drop [DecidableEq V] (lists : Lists index R) (k : K) (v : V) :
    Lists (index.writeList k ((index.readList k).filter (· ≠ v)))
      fun k' v' => ¬ (k' = k ∧ v' = v) ∧ R k' v' := by
  intro k'
  rw [readList_writeList]
  split_ifs with same
  · subst same
    obtain ⟨nodup, mem⟩ := lists k'
    refine ⟨nodup.filter _, fun v' => ?_⟩
    rw [List.mem_filter, mem]
    simp only [decide_eq_true_eq]
    tauto
  · refine ⟨(lists k').1, fun v' => ((lists k').2 v').trans ?_⟩
    simp [same]

end Lists

end Soroban.Store
