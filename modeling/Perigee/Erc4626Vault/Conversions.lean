import Perigee.Arith.Rounding
import Perigee.Erc4626Vault.Contract

/-!
# Rounding of the vault's conversions

Each conversion is within one unit of the exact ratio, on the side its name says.  The bounds are
cross-multiplied: with `M` the managed assets and `S` the supply, both offset, `assets` assets are
worth `assets * S / M` shares.
-/

namespace Erc4626Vault

open Soroban Rounding

theorem mulDivFloor_bounds {a b c q : ℤ} (h : mulDivFloor a b c = .ok q) (hab : 0 ≤ a * b)
    (hc : 0 < c) : q * c ≤ a * b ∧ a * b < (q + 1) * c := by
  simp only [mulDivFloor, ok_iff] at h
  obtain ⟨_, -, p, ⟨-, rfl⟩, -, -, rfl⟩ := h
  exact ⟨tdiv_mul_le hab hc, lt_tdiv_add_one_mul hab hc⟩

theorem mulDivCeil_bounds {a b c q : ℤ} (h : mulDivCeil a b c = .ok q) (hab : 0 ≤ a * b)
    (hc : 0 < c) : a * b ≤ q * c ∧ q * c < a * b + c := by
  simp only [mulDivCeil, ok_iff] at h
  obtain ⟨_, -, p, ⟨-, rfl⟩, _, ⟨-, -, rfl⟩, h⟩ := h
  have value : q = ceilDiv (a * b) c := by
    unfold ceilDiv
    split_ifs at h ⊢
    · exact (pure_ok_iff.1 h).symm
    · exact (i128_ok_iff.1 h).2.symm
  rw [value]
  exact ceilDiv_bounds hab hc

section

variable {Address : Type} {w : World Address} {assets shares : ℤ}

def managed (w : World Address) : ℤ := w.totalAssets + virtualOffset

def supply (w : World Address) : ℤ := w.totalSupply + virtualOffset

structure Priced (w : World Address) : Prop where
  managed_pos : 0 < managed w
  supply_pos : 0 < supply w

theorem assetsToSharesFloor_bounds (priced : Priced w) (ha : 0 ≤ assets)
    (h : assetsToSharesFloor w assets = .ok shares) :
    shares * managed w ≤ assets * supply w ∧ assets * supply w < (shares + 1) * managed w := by
  unfold assetsToSharesFloor at h
  split_ifs at h with empty
  · obtain rfl := pure_ok_iff.1 h
    have same : managed w = supply w := by
      unfold managed supply
      rw [empty.1, empty.2]
    rw [same]
    exact ⟨le_rfl, by nlinarith [priced.supply_pos]⟩
  · simp only [ok_iff] at h
    obtain ⟨_, ⟨-, rfl⟩, _, ⟨-, rfl⟩, h⟩ := h
    exact mulDivFloor_bounds h (mul_nonneg ha priced.supply_pos.le) priced.managed_pos

theorem assetsToSharesCeil_bounds (priced : Priced w) (ha : 0 ≤ assets)
    (h : assetsToSharesCeil w assets = .ok shares) :
    assets * supply w ≤ shares * managed w ∧
      shares * managed w < assets * supply w + managed w := by
  simp only [assetsToSharesCeil, ok_iff] at h
  obtain ⟨_, ⟨-, rfl⟩, _, ⟨-, rfl⟩, h⟩ := h
  exact mulDivCeil_bounds h (mul_nonneg ha priced.supply_pos.le) priced.managed_pos

theorem sharesToAssetsFloor_bounds (priced : Priced w) (hs : 0 ≤ shares)
    (h : sharesToAssetsFloor w shares = .ok assets) :
    assets * supply w ≤ shares * managed w ∧ shares * managed w < (assets + 1) * supply w := by
  simp only [sharesToAssetsFloor, ok_iff] at h
  obtain ⟨_, ⟨-, rfl⟩, _, ⟨-, rfl⟩, h⟩ := h
  exact mulDivFloor_bounds h (mul_nonneg hs priced.managed_pos.le) priced.supply_pos

end

end Erc4626Vault
