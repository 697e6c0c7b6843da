import Perigee.Arith.Split
import Perigee.StrategyComposability.Contract

/-!
# What a resolved allocation adds up to

Each composite splits what reaches it by the weights of its children, and rounds every part down.
What is lost on the way down the tree is never negative, is less than one unit for each leaf, and is
zero exactly if every division in the tree is exact (`resolved_sum`).
-/

namespace StrategyComposability

open Soroban

variable {Address : Type} [DecidableEq Address] {this : Address}

/-! ## Registered composites -/

def weights (children : List (ChildWeight Address)) : List ℤ :=
  children.map fun child => (child.weightBps : ℤ)

/-- The children of every composite share the whole. -/
def Weighted (w : World Address) : Prop :=
  ∀ address composite, w.composites.lookup address = some composite →
    (weights composite.children).sum = bpsDenominator

section Weighted

variable {w w' : World Address} {call : Env this × Call Address}
  {children : List (ChildWeight Address)}

omit [DecidableEq Address] in
theorem weights_nonneg : ∀ weight ∈ weights children, 0 ≤ weight := by
  simp [weights]

theorem validateChildren_ok {parent : Address} {u : Unit}
    (h : validateChildren parent children = .ok u) : (weights children).sum = bpsDenominator := by
  simp only [validateChildren, ok_iff, not_not] at h
  obtain ⟨_, -, _, -, sum⟩ := h
  rw [← sum, Nat.cast_list_sum, List.map_map]
  rfl

theorem Weighted.set {address : Address} {composite : CompositeStrategy Address}
    (weighted : Weighted w) (sum : (weights composite.children).sum = bpsDenominator) :
    Weighted { w with composites := w.composites.set address composite } :=
  Store.forall_set weighted sum

theorem Weighted.step (weighted : Weighted w) (h : Step w call w') : Weighted w' := by
  obtain ⟨_, call⟩ := call
  cases call with
  | initializeRegistry =>
    simp only [Step, exec, initializeRegistry, ok_iff] at h
    obtain ⟨_, -, _, -, rfl⟩ := h
    exact weighted
  | registerComposite =>
    simp only [Step, exec, registerComposite, ok_iff] at h
    obtain ⟨_, -, _, -, _, -, _, valid, _, -, rfl⟩ := h
    exact weighted.set (validateChildren_ok valid)
  | setChildren =>
    simp only [Step, exec, setChildren, ok_iff] at h
    obtain ⟨_, -, _, -, _, valid, rfl⟩ := h
    exact weighted.set (validateChildren_ok valid)

theorem weighted_of_run {calls : List (Env this × Call Address)} (fresh : Fresh w)
    (run : Run Step w calls w') : Weighted w' := by
  refine run.invariant (fun _ _ h => ?_) fun _ _ _ => Weighted.step
  rw [fresh] at h
  cases h

end Weighted

/-! ## Expanding -/

def amounts (leaves : List (AllocationLeaf Address)) : ℤ :=
  (leaves.map AllocationLeaf.amount).sum

/-- Every division on the way from an address to its leaves is exact. -/
def Exact (w : World Address) : ℕ → Address → ℤ → Prop
  | 0, _, _ => True
  | levels + 1, address, total =>
    match w.composites.lookup address with
    | none => True
    | some composite => ∀ child ∈ composite.children,
      (bpsDenominator : ℤ) ∣ total * child.weightBps ∧
        Exact w levels child.child (Split.part bpsDenominator total child.weightBps)

/-- The leaves of an amount: none is negative, and they make up the amount but for less than one
unit for each leaf. -/
structure Allots (total : ℤ) (leaves : List (AllocationLeaf Address)) (lossless : Prop) : Prop where
  nonneg : ∀ leaf ∈ leaves, 0 ≤ leaf.amount
  le : amounts leaves ≤ total
  lt : total < amounts leaves + leaves.length
  eq_iff : amounts leaves = total ↔ lossless

section Expand

variable {w : World Address} {levels : ℕ} {total : ℤ}

omit [DecidableEq Address] in
theorem allots_flatten {part : ChildWeight Address → ℤ} {lossless : ChildWeight Address → Prop}
    {children : List (ChildWeight Address)} {leaves : List (List (AllocationLeaf Address))}
    (each : List.Forall₂ (fun child found => Allots (part child) found (lossless child)) children
      leaves) :
    (∀ leaf ∈ leaves.flatten, 0 ≤ leaf.amount) ∧
      amounts leaves.flatten ≤ (children.map part).sum ∧
      (children.map part).sum + children.length ≤ amounts leaves.flatten + leaves.flatten.length ∧
      (amounts leaves.flatten = (children.map part).sum ↔ ∀ child ∈ children, lossless child) := by
  induction each with
  | nil => simp [amounts]
  | @cons _ found _ leaves first _ ih =>
    obtain ⟨nonneg, _, _, eq_iff⟩ := ih
    have split : amounts (found :: leaves).flatten = amounts found + amounts leaves.flatten := by
      simp [amounts]
    have firstLe := first.le
    have firstLt := first.lt
    simp only [split, List.map_cons, List.sum_cons, List.forall_mem_cons]
    refine ⟨?_, by omega, ?_, ?_⟩
    · exact fun leaf mem => (List.mem_append.1 mem).elim (first.nonneg leaf) (nonneg leaf)
    · simp only [List.flatten_cons, List.length_append, List.length_cons]
      omega
    · -- neither summand exceeds its share, so the sums agree only where the summands do
      rw [← first.eq_iff, ← eq_iff]
      omega

theorem expand_allots (weighted : Weighted w) {address : Address} {visited : List Address}
    {leaves : List (AllocationLeaf Address)} (nonneg : 0 ≤ total)
    (h : expand w levels address total visited = .ok leaves) :
    Allots total leaves (Exact w levels address total) := by
  induction levels generalizing address total visited leaves with
  | zero => cases h
  | succ _ ih =>
    rw [expand, bind_ok_iff] at h
    obtain ⟨_, -, h⟩ := h
    cases found : w.composites.lookup address with
    | none =>
      rw [found] at h
      obtain rfl := pure_ok_iff.1 h
      exact ⟨by simpa using nonneg, by simp [amounts], by simp [amounts],
        by simp [amounts, Exact, found]⟩
    | some composite =>
      simp only [found, ok_iff, mapM_ok_iff] at h
      obtain ⟨parts, each, rfl⟩ := h
      have whole := weighted address composite found
      have positive : (0 : ℤ) < bpsDenominator := by decide
      -- the parts of the children, and what the leaves below each child make of its part
      have below := allots_flatten (each.imp fun child found passed => by
        obtain ⟨_, ⟨-, rfl⟩, expanded⟩ := by
          simpa only [bind_ok_iff] using passed
        exact ih (Split.part_nonneg positive nonneg (Int.natCast_nonneg child.weightBps)) expanded)
      obtain ⟨amountsNonneg, _, _, eq_iff⟩ := below
      have parted : (composite.children.map fun child =>
          Split.part bpsDenominator total child.weightBps).sum =
          ((weights composite.children).map (Split.part bpsDenominator total)).sum := by
        simp [weights, Function.comp_def]
      have sumLe := Split.sum_part_le positive whole nonneg weights_nonneg
      have sumLt := Split.lt_sum_part_add (t := total) positive whole
      have sumEq := Split.sum_part_eq_iff positive whole nonneg weights_nonneg
      have length : (weights composite.children).length = composite.children.length := by
        simp [weights]
      refine ⟨amountsNonneg, by omega, by omega, ?_⟩
      have both : amounts parts.flatten = total ↔
          ((weights composite.children).map (Split.part bpsDenominator total)).sum = total ∧
            amounts parts.flatten = (composite.children.map fun child =>
              Split.part bpsDenominator total child.weightBps).sum := by
        omega
      rw [both, sumEq, eq_iff]
      simp only [Exact, found, weights, List.mem_map, forall_exists_index, and_imp,
        forall_apply_eq_imp_iff₂, forall_and]

end Expand

/-- In every registry that `register_composite` and `set_children` can build, the leaves of a
resolved allocation are not negative; they sum to the total or to less, by less than one unit for
each leaf, and to the total exactly if every division in the tree is exact. -/
theorem resolved_sum {w₀ w : World Address} {calls : List (Env this × Call Address)}
    (fresh : Fresh w₀) (run : Run Step w₀ calls w) {address : Address} {total : ℤ}
    {leaves : List (AllocationLeaf Address)} (h : resolveAllocation address total w = .ok leaves) :
    (∀ leaf ∈ leaves, 0 ≤ leaf.amount) ∧ amounts leaves ≤ total ∧
      total < amounts leaves + leaves.length ∧
      (amounts leaves = total ↔ Exact w (maxDepth + 1) address total) := by
  simp only [resolveAllocation, ok_iff, not_lt] at h
  obtain ⟨_, nonneg, expanded⟩ := h
  obtain ⟨amountsNonneg, le, lt, eq_iff⟩ :=
    expand_allots (weighted_of_run fresh run) nonneg expanded
  exact ⟨amountsNonneg, le, lt, eq_iff⟩

/-! ## Two halves -/

def signed (call : Call ℕ) : Env 0 × Call ℕ := (⟨0, fun a => a ≠ 0, zero_unsigned⟩, call)

/-- Composite `7` halves what it gets between `8` and `9`, and `9` gives a third and two thirds, in
whole basis points, to `10` and `11`. -/
def halves : List (Env 0 × Call ℕ) :=
  [signed (.initializeRegistry 1),
    signed (.registerComposite 1 7 [⟨8, 5000⟩, ⟨9, 5000⟩] 100),
    signed (.registerComposite 1 9 [⟨10, 3333⟩, ⟨11, 6667⟩] 100)]

theorem halves_sum : ∃ w leaves, Run Step ({} : World ℕ) halves w ∧
    resolveAllocation 7 20000 w = .ok leaves ∧
    leaves = [⟨8, 10000⟩, ⟨10, 3333⟩, ⟨11, 6667⟩] ∧ Exact w (maxDepth + 1) 7 20000 := by
  obtain ⟨w, run, leaves, resolved, rfl⟩ : ∃ w, Run Step ({} : World ℕ) halves w ∧
      ∃ leaves, resolveAllocation 7 20000 w = .ok leaves ∧
        leaves = [⟨8, 10000⟩, ⟨10, 3333⟩, ⟨11, 6667⟩] :=
    exists_run (fun _ _ _ => id) (by decide +kernel)
  have fresh : Fresh ({} : World ℕ) := rfl
  obtain ⟨-, -, -, eq_iff⟩ := resolved_sum fresh run resolved
  exact ⟨w, _, run, resolved, rfl, eq_iff.1 rfl⟩

/-- One unit halved is nothing on either side. -/
theorem halves_lose_a_unit : ∃ w leaves, Run Step ({} : World ℕ) halves w ∧
    resolveAllocation 7 1 w = .ok leaves ∧ leaves = [⟨8, 0⟩, ⟨10, 0⟩, ⟨11, 0⟩] ∧
    amounts leaves = 0 := by
  obtain ⟨w, done, leaves, resolved, rfl⟩ : ∃ w, halves.foldlM exec ({} : World ℕ) = .ok w ∧
      ∃ leaves, resolveAllocation 7 1 w = .ok leaves ∧
        leaves = [⟨8, 0⟩, ⟨10, 0⟩, ⟨11, 0⟩] := by
    decide +kernel
  exact ⟨w, _, Run.of_foldlM (fun _ _ _ passed => passed) done, resolved, rfl, rfl⟩

end StrategyComposability
