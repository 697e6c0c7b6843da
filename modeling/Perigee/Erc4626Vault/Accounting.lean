import Perigee.Erc4626Vault.Effects
import Perigee.Soroban.Ledger

/-!
# The vault's books

In every reachable state the share balances add up to the supply, the recorded assets are covered by
the vault's tokens, and the offset assets are positive, so that the share price is well defined
(`Books`).
-/

namespace Erc4626Vault

open Soroban Rounding

variable {Address : Type} [DecidableEq Address] {vault : Address} {env : Env vault}
  {w w' : World Address}

/-- What holds in every reachable state, however badly mints are priced. -/
structure Books (vault : Address) (w : World Address) : Prop where
  config : ∃ c, w.config = some c ∧ c.performanceFeeBps ≤ 10000 ∧
    0 ≤ w.tokens c.asset vault ∧ w.totalAssets ≤ w.tokens c.asset vault
  ledger : Balanced w.shares w.totalSupply
  managed_pos : 0 < managed w

namespace Books

theorem priced (books : Books vault w) : Priced w := by
  refine ⟨books.managed_pos, ?_⟩
  have := books.ledger.total_nonneg
  unfold Erc4626Vault.supply virtualOffset
  omega

/-- A trade that leaves the offset assets positive keeps the books. -/
theorem trade {account : Address} {da ds : ℤ} (books : Books vault w)
    (t : Trade vault account da ds w w') (pos : 0 < managed w + da) : Books vault w' := by
  obtain ⟨c, hc, fee, _, _⟩ := books.config
  have balance' : 0 ≤ getShares w account := books.ledger.getD_nonneg account
  have tokens' := t.tokens c hc
  refine ⟨⟨c, t.config.trans hc, fee, ?_, ?_⟩, ?_, ?_⟩
  · have := t.paid c hc
    omega
  · rw [t.totalAssets]
    omega
  · rw [t.shares, t.totalSupply]
    refine books.ledger.add ?_
    change 0 ≤ getShares w account + ds
    have := t.covered
    omega
  · unfold managed at pos ⊢
    rw [t.totalAssets]
    omega

theorem frame (books : Books vault w) (f : Frame vault w w') : Books vault w' := by
  obtain ⟨c, hc, fee, _, _⟩ := books.config
  obtain ⟨c', hc', asset, fee'⟩ := f.config c hc
  have grows := f.tokens c.asset
  refine ⟨⟨c', hc', fee'.le.trans fee, ?_, ?_⟩, ?_, ?_⟩
  · rw [asset]
    omega
  · rw [asset, f.totalAssets]
    omega
  · rw [f.shares, f.totalSupply]
    exact books.ledger
  · have := books.managed_pos
    unfold managed at this ⊢
    rwa [f.totalAssets]

end Books

omit [DecidableEq Address] in
theorem harvestFee_bounds {config : VaultConfig Address} {profit fee : ℤ}
    (bps : config.performanceFeeBps ≤ 10000) (h : harvestFee config profit = .ok fee) :
    0 ≤ fee ∧ (0 ≤ profit → fee ≤ profit) := by
  unfold harvestFee at h
  split_ifs at h with charged
  · have rate : (config.performanceFeeBps : ℤ) ≤ 10000 := by exact_mod_cast bps
    have bounds := mulDivFloor_bounds h (mul_nonneg charged.1.le (Int.natCast_nonneg _)) (by decide)
    unfold bpsDenominator at bounds
    constructor
    · by_contra neg
      have : 0 ≤ profit * (config.performanceFeeBps : ℤ) :=
        mul_nonneg charged.1.le (Int.natCast_nonneg _)
      omega
    · intro _
      have : profit * (config.performanceFeeBps : ℤ) ≤ profit * 10000 :=
        mul_le_mul_of_nonneg_left rate charged.1.le
      omega
  · obtain rfl := pure_ok_iff.1 h
    exact ⟨le_rfl, id⟩

theorem Books.harvest {admin : Address} {r : ℤ} (books : Books vault w)
    (h : Erc4626Vault.harvest env admin w = .ok (r, w')) : Books vault w' := by
  obtain ⟨c, hc, fee, _, _⟩ := books.config
  obtain ⟨_, updated, charge, hc', hu, asset, bps, hfee, total, supply, shares, covered,
    tokens⟩ := harvest_effect h
  obtain rfl := Option.mem_unique hc hc'
  have nonneg := (harvestFee_bounds fee hfee).1
  have kept := tokens nonneg
  refine ⟨⟨updated, hu, bps.le.trans fee, ?_, ?_⟩, ?_, ?_⟩
  · rw [asset]
    omega
  · rw [asset, total]
    exact kept
  · rw [shares, supply]
    exact books.ledger
  · unfold managed virtualOffset
    omega

omit [DecidableEq Address] in
theorem managed_add_pos {da ds : ℤ} (priced : Priced w) (fair : ds * managed w ≤ da * supply w)
    (burn : -ds < supply w) : 0 < managed w + da := by
  have hm := priced.managed_pos
  have hs := priced.supply_pos
  have scaled : 0 < (managed w + da) * supply w := by nlinarith
  exact (mul_pos_iff_of_pos_right hs).1 scaled

theorem Books.step {action : Action vault} (books : Books vault w)
    (h : Step vault w action w') : Books vault w' := by
  cases step_cases h with
  | fair trade =>
    obtain ⟨account, _, _, trade, fair⟩ := trade
    refine books.trade trade (managed_add_pos books.priced (fair books.priced) ?_)
    have := trade.covered
    have : getShares w account ≤ w.totalSupply := books.ledger.getD_le account
    have := books.ledger.total_nonneg
    unfold Erc4626Vault.supply virtualOffset
    omega
  | mint _ _ _ trade =>
    have := books.managed_pos
    exact books.trade trade (by omega)
  | harvest harvested => exact books.harvest harvested
  | frame f => exact books.frame f

theorem Initial.books (h : Initial vault w) : Books vault w := by
  obtain ⟨_, _, _, _, _, _, nonneg, h⟩ := h
  simp only [initializeVault, ok_iff] at h
  obtain ⟨_, -, _, fee, _, -, rfl⟩ := h
  exact ⟨⟨_, rfl, not_lt.1 fee, nonneg _ _, nonneg _ _⟩, .empty,
    by simp [managed, virtualOffset]⟩

theorem books_of_reachable (reach : Reachable (Initial vault) (Step vault) w) : Books vault w :=
  reach.invariant (fun _ => Initial.books) fun _ _ _ => Books.step

end Erc4626Vault
