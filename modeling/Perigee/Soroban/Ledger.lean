import Perigee.Soroban.Store

/-!
# Ledgers of balances

A ledger is balanced when its entries are non-negative and add up to a recorded total.
-/

namespace Soroban

variable {K : Type} [DecidableEq K]

/-- The entries of `s` are non-negative and add up to `total`. -/
structure Balanced (s : Store K ℤ) (total : ℤ) : Prop where
  sum : s.sumBy (fun _ balance => balance) = total
  nonneg : ∀ k balance, s.lookup k = some balance → 0 ≤ balance

namespace Balanced

variable {s : Store K ℤ} {total : ℤ}

theorem empty : Balanced (∅ : Store K ℤ) 0 :=
  ⟨rfl, fun k _ h => by simp at h⟩

theorem share_eq_getD (s : Store K ℤ) (k : K) :
    s.share (fun _ balance => balance) k = s.getD k 0 := by
  unfold Store.share Store.getD
  cases s.lookup k <;> rfl

theorem getD_nonneg (ledger : Balanced s total) (k : K) : 0 ≤ s.getD k 0 := by
  unfold Store.getD
  cases h : s.lookup k with
  | none => exact le_rfl
  | some balance => exact ledger.nonneg k balance h

theorem getD_le (ledger : Balanced s total) (k : K) : s.getD k 0 ≤ total := by
  rw [← share_eq_getD, ← ledger.sum]
  exact Store.share_le_sumBy _ _ _ ledger.nonneg

theorem total_nonneg (ledger : Balanced s total) : 0 ≤ total := by
  rw [← ledger.sum]
  exact Store.sumBy_nonneg _ _ fun e he => ledger.nonneg _ _ ((Store.mem_entries_iff _ _).1 he)

theorem add (ledger : Balanced s total) {k : K} {d : ℤ} (covered : 0 ≤ s.getD k 0 + d) :
    Balanced (s.set k (s.getD k 0 + d)) (total + d) := by
  refine ⟨?_, Store.forall_set ledger.nonneg covered⟩
  have exchange := Store.share_add_sumBy_set (fun _ balance => balance) s k (s.getD k 0 + d)
  rw [share_eq_getD, ledger.sum] at exchange
  linarith

end Balanced

end Soroban
