import Perigee.Arith.Rounding
import Perigee.StrategyComposability.Allocation

/-!
# When an allocation can be resolved

An amount that does not overflow is resolved exactly if it is not negative, no address repeats on a
path from the root, and no path is deeper than the bound.
-/

namespace StrategyComposability

open Soroban

variable {Address : Type} [DecidableEq Address] {this : Address} {w : World Address}

def ChildOf (w : World Address) (parent address : Address) : Prop :=
  ∃ composite, w.composites.lookup parent = some composite ∧
    ∃ child ∈ composite.children, child.child = address

/-- A path from the address down: each address is a child of the composite before it. -/
def Path (w : World Address) (address : Address) (path : List Address) : Prop :=
  (address :: path).IsChain (ChildOf w)

theorem mapM_succeeds_iff {α β ε : Type} {f : α → Outcome ε β} {l : List α} :
    (∃ out, l.mapM f = .ok out) ↔ ∀ a ∈ l, ∃ b, f a = .ok b := by
  simp only [mapM_ok_iff]
  induction l with
  | nil => simp
  | cons a l ih =>
    simp only [List.forall₂_cons_left_iff, List.forall_mem_cons, ← ih]
    constructor
    · rintro ⟨_, b, out, first, rest, rfl⟩
      exact ⟨⟨b, first⟩, out, rest⟩
    · rintro ⟨⟨b, first⟩, out, rest⟩
      exact ⟨_, b, out, first, rest, rfl⟩

theorem Weighted.le {address : Address} {composite : CompositeStrategy Address}
    (weighted : Weighted w) (found : w.composites.lookup address = some composite)
    {child : ChildWeight Address} (mem : child ∈ composite.children) :
    (child.weightBps : ℤ) ≤ bpsDenominator := by
  rw [← weighted address composite found]
  exact List.single_le_sum weights_nonneg _ (List.mem_map_of_mem mem)

/-- The recursion succeeds exactly if the paths below, after the path to the address, repeat nothing
and fit into the levels that are left. -/
theorem expand_succeeds_iff (weighted : Weighted w) (levels : ℕ) (address : Address) {total : ℤ}
    {visited : List Address} (nonneg : 0 ≤ total) (fits : IsI128 (total * bpsDenominator))
    (once : visited.Nodup) :
    (∃ leaves, expand w levels address total visited = .ok leaves) ↔
      ∀ path, Path w address path → (visited ++ address :: path).Nodup ∧ path.length < levels := by
  induction levels generalizing address total visited with
  | zero =>
    refine iff_of_false (fun ⟨_, h⟩ => nomatch h) fun all => ?_
    exact absurd (all [] (.singleton _)).2 (Nat.not_lt_zero 0)
  | succ levels ih =>
    have fresh_iff : (visited ++ [address]).Nodup ↔ address ∉ visited := by
      rw [← List.concat_eq_append, List.nodup_concat, and_iff_left once]
    simp only [expand, ok_iff]
    cases found : w.composites.lookup address with
    | none =>
      constructor
      · rintro ⟨_, _, fresh, -⟩ (_ | ⟨child, path⟩) chain
        · exact ⟨fresh_iff.2 fresh, Nat.succ_pos levels⟩
        · obtain ⟨⟨composite, registered, -⟩, -⟩ := List.isChain_cons_cons.1 chain
          rw [found] at registered
          cases registered
      · intro all
        exact ⟨_, (), fresh_iff.1 (all [] (.singleton _)).1, rfl⟩
    | some composite =>
      -- what a child is given is in range, and is at most what its parent was given
      have bounds : ∀ child ∈ composite.children, IsI128 (total * child.weightBps) ∧
          0 ≤ (total * child.weightBps).tdiv bpsDenominator ∧
          IsI128 ((total * child.weightBps).tdiv bpsDenominator * bpsDenominator) := by
        intro child mem
        have product : 0 ≤ total * child.weightBps := mul_nonneg nonneg (Int.natCast_nonneg _)
        have le := mul_le_mul_of_nonneg_left (weighted.le found mem) nonneg
        have part := Rounding.tdiv_nonneg product (d := bpsDenominator) (by decide)
        have whole := Rounding.tdiv_mul_le product (d := bpsDenominator) (by decide)
        have again : 0 ≤ (total * child.weightBps).tdiv bpsDenominator * bpsDenominator :=
          mul_nonneg part (by decide)
        unfold IsI128 at *
        exact ⟨⟨by omega, by omega⟩, part, by omega, by omega⟩
      simp only [ok_iff]
      constructor
      · rintro ⟨_, _, fresh, _, resolved, -⟩ (_ | ⟨_, path⟩) chain
        · exact ⟨fresh_iff.2 fresh, Nat.succ_pos levels⟩
        · obtain ⟨⟨_, registered, child, mem, rfl⟩, below⟩ := List.isChain_cons_cons.1 chain
          obtain rfl := Option.mem_unique found registered
          obtain ⟨_, expanded⟩ := mapM_succeeds_iff.1 ⟨_, resolved⟩ child mem
          simp only [ok_iff] at expanded
          obtain ⟨_, ⟨-, rfl⟩, expanded⟩ := expanded
          obtain ⟨-, part, again⟩ := bounds child mem
          have := (ih _ part again (fresh_iff.2 fresh)).1 ⟨_, expanded⟩ path below
          rw [List.append_assoc] at this
          exact ⟨this.1, Nat.succ_lt_succ this.2⟩
      · intro all
        have fresh := (all [] (.singleton _)).1
        have each : ∀ child ∈ composite.children, ∃ leaves, (do
            let product ← checkedI128 (total * child.weightBps) Error.mathOverflow
            expand w levels child.child (product.tdiv bpsDenominator) (visited ++ [address])) =
              .ok leaves := by
          intro child mem
          obtain ⟨product, part, again⟩ := bounds child mem
          obtain ⟨leaves, expanded⟩ := (ih _ part again fresh).2 fun path below => by
            have := all (child.child :: path)
              (List.isChain_cons_cons.2 ⟨⟨composite, found, child, mem, rfl⟩, below⟩)
            rw [List.append_assoc]
            exact ⟨this.1, Nat.lt_of_succ_lt_succ this.2⟩
          exact ⟨leaves, bind_ok_iff.2 ⟨_, checkedI128_ok_iff.2 ⟨product, rfl⟩, expanded⟩⟩
        obtain ⟨parts, resolved⟩ := mapM_succeeds_iff.2 each
        exact ⟨_, (), fresh_iff.1 fresh, parts, resolved, rfl⟩

/-- In every registry that can be built, an amount that does not overflow is resolved exactly if it
is not negative and the paths from the root repeat no address and are at most `maxDepth` long.  The
leaves then lose less than one unit each. -/
theorem resolved_iff {w₀ : World Address} {calls : List (Env this × Call Address)}
    (fresh : Fresh w₀) (run : Run Step w₀ calls w) (address : Address) (total : ℤ)
    (fits : IsI128 (total * bpsDenominator)) :
    ((∃ leaves, resolveAllocation address total w = .ok leaves) ↔
      0 ≤ total ∧ ∀ path, Path w address path →
        (address :: path).Nodup ∧ path.length ≤ maxDepth) ∧
    ∀ leaves, resolveAllocation address total w = .ok leaves →
      0 ≤ total - amounts leaves ∧ total - amounts leaves ≤ leaves.length - 1 := by
  constructor
  · have succeeds := fun nonneg => expand_succeeds_iff (weighted_of_run fresh run) (maxDepth + 1)
      address nonneg fits List.nodup_nil
    simp only [Nat.lt_succ_iff] at succeeds
    simp only [resolveAllocation, ok_iff, not_lt]
    constructor
    · rintro ⟨leaves, _, nonneg, resolved⟩
      exact ⟨nonneg, (succeeds nonneg).1 ⟨leaves, resolved⟩⟩
    · rintro ⟨nonneg, paths⟩
      obtain ⟨leaves, resolved⟩ := (succeeds nonneg).2 paths
      exact ⟨leaves, (), nonneg, resolved⟩
  · intro leaves h
    obtain ⟨-, _, _, -⟩ := resolved_sum fresh run h
    omega

theorem halves_resolved : ∃ w leaves, Run Step ({} : World ℕ) halves w ∧
    resolveAllocation 7 1 w = .ok leaves ∧ leaves.length = 3 ∧ 1 - amounts leaves ≤ 2 ∧
    ∀ path, Path w 7 path → (7 :: path).Nodup ∧ path.length ≤ maxDepth := by
  obtain ⟨w, run, leaves, resolved, three⟩ : ∃ w, Run Step ({} : World ℕ) halves w ∧
      ∃ leaves, resolveAllocation 7 1 w = .ok leaves ∧ leaves.length = 3 :=
    exists_run (fun _ _ _ => id) (by decide +kernel)
  have fresh : Fresh ({} : World ℕ) := rfl
  obtain ⟨succeeds, loss⟩ := resolved_iff fresh run 7 1 (by decide)
  have bound := (loss leaves resolved).2
  exact ⟨w, leaves, run, resolved, three, by omega, (succeeds.1 ⟨leaves, resolved⟩).2⟩

/-- A leaf on its own has no path to repeat or exceed, and a negative amount is rejected. -/
theorem negative_total_rejected :
    (∀ path, Path ({} : World ℕ) 7 path → (7 :: path).Nodup ∧ path.length ≤ maxDepth) ∧
      IsI128 (-1 * bpsDenominator) ∧
      ¬ ∃ leaves, resolveAllocation 7 (-1) ({} : World ℕ) = .ok leaves := by
  refine ⟨?_, by decide, fun ⟨_, resolved⟩ => nomatch resolved⟩
  rintro (_ | ⟨_, path⟩) chain
  · decide
  · obtain ⟨⟨_, registered, -⟩, -⟩ := List.isChain_cons_cons.1 chain
    cases registered

end StrategyComposability
