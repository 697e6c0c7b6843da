import Perigee.Erc4626Vault.Accounting

/-!
# The share price

Every trade but a mint is made at no less than the share price, so it does not lower the price.  A
mint charges `shares * supply / managed` assets where the price asks for `shares * managed /
supply`: it lowers the price exactly when it is made with more assets than shares.
-/

namespace Erc4626Vault

open Soroban Rounding

variable {Address : Type} [DecidableEq Address] {vault : Address} {env : Env vault}
  {w w' : World Address}

def MintAtPar (w : World Address) : Call Address → Prop
  | .mint .. => w.totalAssets ≤ w.totalSupply
  | _ => True

theorem Trade.price_iff {account : Address} {da ds : ℤ} (t : Trade vault account da ds w w') :
    managed w * supply w' ≤ managed w' * supply w ↔ ds * managed w ≤ da * supply w := by
  have hs : supply w' = supply w + ds := by
    unfold supply
    rw [t.totalSupply]
    ring
  have hm : managed w' = managed w + da := by
    unfold managed
    rw [t.totalAssets]
    ring
  rw [hs, hm]
  exact ratio_le_after_trade_iff _ _ _ _

theorem FairTrade.price_le (priced : Priced w) (fair : FairTrade vault w w') :
    managed w * supply w' ≤ managed w' * supply w := by
  obtain ⟨_, _, _, trade, fair⟩ := fair
  exact trade.price_iff.2 (fair priced)

omit [DecidableEq Address] in
/-- The charge of a mint covers the price of its shares exactly when the price is at most one. -/
theorem mint_charge_iff {shares assets : ℤ} (priced : Priced w) (hs : 0 < shares)
    (h : assetsToSharesCeil w shares = .ok assets) :
    shares * managed w ≤ assets * supply w ↔ w.totalAssets ≤ w.totalSupply := by
  obtain ⟨_, _⟩ := assetsToSharesCeil_bounds priced hs.le h
  have hsup := priced.supply_pos
  have par : managed w ≤ supply w ↔ w.totalAssets ≤ w.totalSupply := by
    unfold managed supply
    omega
  rw [← par]
  constructor
  · intro _
    by_contra above
    have cheap : assets ≤ shares := by
      by_contra dear
      nlinarith
    nlinarith
  · intro _
    have dear : shares ≤ assets := by
      by_contra cheap
      nlinarith
    nlinarith

/-- The share price falls in a call exactly when the call is a mint made above par. -/
theorem sharePrice_le_iff_mintAtPar {c : Call Address}
    (reach : Reachable (Initial vault) (Step vault) w) (h : exec env w c = .ok w')
    (trade : c.IsTrade) :
    (w.totalAssets + virtualOffset) * (w'.totalSupply + virtualOffset) ≤
        (w'.totalAssets + virtualOffset) * (w.totalSupply + virtualOffset) ↔
      MintAtPar w c := by
  have priced := (books_of_reachable reach).priced
  cases c with
  | deposit | withdraw | redeem | permitWithdraw =>
    exact iff_of_true ((fairTrade_of_exec h trivial).price_le priced) trivial
  | mint =>
    obtain ⟨r, h⟩ := map_snd_ok_iff.1 h
    obtain ⟨_, pos, -, convert, trade⟩ := mint_trade h
    exact trade.price_iff.trans (mint_charge_iff priced pos convert)
  | _ => exact trade.elim

/-! ## Runs without mints above par -/

/-- No mint above par is made in this step. -/
def AtPar (w : World Address) : Action vault → Prop
  | .call _ c => MintAtPar w c
  | .external _ => True

theorem totalSupply_le_of_price_le (books : Books vault w) (books' : Books vault w')
    (par : w.totalSupply ≤ w.totalAssets)
    (price : managed w * supply w' ≤ managed w' * supply w) : w'.totalSupply ≤ w'.totalAssets := by
  have hm := books.managed_pos
  have hm' := books'.managed_pos
  have above : supply w ≤ managed w := by
    unfold supply managed
    omega
  have scaled : managed w' * supply w ≤ managed w' * managed w :=
    mul_le_mul_of_nonneg_left above hm'.le
  have above' : supply w' ≤ managed w' := by
    refine le_of_mul_le_mul_left ?_ hm
    linarith
  unfold supply managed at above'
  omega

theorem totalSupply_le_step {action : Action vault} (books : Books vault w)
    (par : w.totalSupply ≤ w.totalAssets) (cond : AtPar w action)
    (h : Step vault w action w') : w'.totalSupply ≤ w'.totalAssets := by
  have books' := books.step h
  cases step_cases h with
  | fair trade => exact totalSupply_le_of_price_le books books' par (trade.price_le books.priced)
  | mint pos _ convert trade =>
    have charged := (mint_charge_iff books.priced pos convert).2 cond
    exact totalSupply_le_of_price_le books books' par (trade.price_iff.2 charged)
  | harvest harvested =>
    obtain ⟨c, hc, bps, -, _⟩ := books.config
    obtain ⟨_, -, _, hc', -, -, -, hfee, total, supply, -⟩ := harvest_effect harvested
    obtain rfl := Option.mem_unique hc hc'
    have := (harvestFee_bounds bps hfee).2 (by omega)
    omega
  | frame f =>
    rw [f.totalAssets, f.totalSupply]
    exact par

theorem totalSupply_le_of_guarded
    (reach : Reachable (Initial vault) (Guarded AtPar (Step vault)) w) :
    Books vault w ∧ w.totalSupply ≤ w.totalAssets := by
  refine reach.invariant (P := fun w => Books vault w ∧ w.totalSupply ≤ w.totalAssets)
    (fun _ h => ⟨h.books, ?_⟩) fun _ l _ h step =>
      ⟨h.1.step step.2, totalSupply_le_step h.1 h.2 step.1 step.2⟩
  obtain ⟨_, _, _, _, _, tokens, -, h⟩ := h
  simp only [initializeVault, ok_iff] at h
  obtain ⟨_, -, _, -, _, -, rfl⟩ := h
  exact le_rfl

/-- While no mint is made above par, the share balances are non-negative and add up to the supply,
and the recorded assets are non-negative and covered by the vault's tokens. -/
theorem accounting_of_mints_at_par
    (reach : Reachable (Initial vault) (Guarded AtPar (Step vault)) w) :
    ∃ c, w.config = some c ∧ w.shares.sumBy (fun _ balance => balance) = w.totalSupply ∧
      (∀ account, 0 ≤ getShares w account) ∧
      0 ≤ w.totalAssets ∧ w.totalAssets ≤ w.tokens c.asset vault := by
  obtain ⟨books, par⟩ := totalSupply_le_of_guarded reach
  obtain ⟨c, hc, -, -, held⟩ := books.config
  have := books.ledger.total_nonneg
  exact ⟨c, hc, books.ledger.sum, books.ledger.getD_nonneg, by omega, held⟩

/-! ## A vault above par -/

def everyoneSigns : Env (0 : ℕ) := ⟨1, fun a => a != 0, zero_unsigned⟩

/-- Account 1 deposits 1000 of token 9, 2000 more are donated, and the admin harvests. -/
def aboveParVault : Outcome Error (World ℕ) := do
  let tokens := fun _ holder => if holder = 1 then 20000 else 0
  let w ← initializeVault everyoneSigns 9 2 3 0 { tokens }
  let w ← exec everyoneSigns w (.deposit 1 1000 1)
  exec everyoneSigns { w with tokens := w.tokens.add 9 0 2000 } (.harvest 2)

theorem aboveParVault_reachable {w : World ℕ} (h : aboveParVault = .ok w) :
    Reachable (Initial 0) (Guarded AtPar (Step 0)) w := by
  simp only [aboveParVault, bind_ok_iff] at h
  obtain ⟨w₁, start, w₂, paid, harvested⟩ := h
  have first : Reachable (Initial 0) (Guarded AtPar (Step 0)) w₁ := by
    refine .start ⟨_, _, _, _, _, _, fun _ _ => ?_, start⟩
    split_ifs <;> decide
  have second := first.next_guarded (step_call paid) trivial
  have third := second.next_guarded (step_donation w₂ 9 (by decide : (0 : ℤ) ≤ 2000)) trivial
  exact third.next_guarded (step_call harvested) trivial

/-- At 3000 assets for 1000 shares, a mint of 10000 shares is charged 5000 assets. -/
theorem mint_above_par_lowers_price :
    ∃ w w' : World ℕ, Reachable (Initial 0) (Step 0) w ∧
      exec everyoneSigns w (.mint 1 10000 1) = .ok w' ∧
      ¬ (w.totalAssets + virtualOffset) * (w'.totalSupply + virtualOffset) ≤
        (w'.totalAssets + virtualOffset) * (w.totalSupply + virtualOffset) := by
  obtain ⟨w, hw, w', hx, fell⟩ : ∃ w, aboveParVault = .ok w ∧
      ∃ w', exec everyoneSigns w (.mint 1 10000 1) = .ok w' ∧
        ¬ (w.totalAssets + virtualOffset) * (w'.totalSupply + virtualOffset) ≤
          (w'.totalAssets + virtualOffset) * (w.totalSupply + virtualOffset) := by
    decide
  exact ⟨w, w', (aboveParVault_reachable hw).of_guarded, hx, fell⟩

/-- A deposit into the same vault does not lower its price. -/
theorem deposit_above_par_keeps_price :
    ∃ w w' : World ℕ, exec everyoneSigns w (.deposit 1 500 1) = .ok w' ∧
      (w.totalAssets + virtualOffset) * (w'.totalSupply + virtualOffset) ≤
        (w'.totalAssets + virtualOffset) * (w.totalSupply + virtualOffset) := by
  obtain ⟨w, hw, w', hx⟩ : ∃ w, aboveParVault = .ok w ∧
      ∃ w', exec everyoneSigns w (.deposit 1 500 1) = .ok w' := by
    decide
  exact ⟨w, w', hx, (sharePrice_le_iff_mintAtPar (aboveParVault_reachable hw).of_guarded
    hx trivial).2 trivial⟩

/-- Nothing was minted in it, so its books balance. -/
theorem aboveParVault_accounting :
    ∃ (w : World ℕ) (c : VaultConfig ℕ), aboveParVault = .ok w ∧ w.config = some c ∧
      w.shares.sumBy (fun _ balance => balance) = w.totalSupply ∧
      (∀ account, 0 ≤ getShares w account) ∧
      0 ≤ w.totalAssets ∧ w.totalAssets ≤ w.tokens c.asset 0 := by
  obtain ⟨w, hw⟩ : ∃ w, aboveParVault = .ok w := by decide
  obtain ⟨c, books⟩ := accounting_of_mints_at_par (aboveParVault_reachable hw)
  exact ⟨w, c, hw, books⟩

/-- After a mint above par, 10000 donated tokens let all 11000 shares redeem for 8250 of the 8000
recorded assets. -/
def mispricedVault : Outcome Error (World ℕ) := do
  let w ← aboveParVault
  let w ← exec everyoneSigns w (.mint 1 10000 1)
  exec everyoneSigns { w with tokens := w.tokens.add 9 0 10000 } (.redeem 1 11000 1 1)

theorem mispricedVault_reachable {w : World ℕ} (h : mispricedVault = .ok w) :
    Reachable (Initial 0) (Step 0) w := by
  simp only [mispricedVault, bind_ok_iff] at h
  obtain ⟨w₁, above, w₂, minted, redeemed⟩ := h
  have reach := (aboveParVault_reachable above).of_guarded
  have afterMint := reach.next (step_call minted)
  have donated := afterMint.next (step_donation w₂ 9 (by decide : (0 : ℤ) ≤ 10000))
  exact donated.next (step_call redeemed)

theorem redeem_after_mint_above_par_negative_assets :
    ∃ w : World ℕ, Reachable (Initial 0) (Step 0) w ∧ ¬ 0 ≤ w.totalAssets := by
  obtain ⟨w, hw, negative⟩ : ∃ w, mispricedVault = .ok w ∧ ¬ 0 ≤ w.totalAssets := by decide
  exact ⟨w, mispricedVault_reachable hw, negative⟩

/-- However badly mints are priced, no share balance is negative, the balances add up to the supply,
and the recorded assets are covered by tokens and less than the offset below zero. -/
theorem books_of_any_mints (reach : Reachable (Initial vault) (Step vault) w) :
    ∃ c, w.config = some c ∧ w.shares.sumBy (fun _ balance => balance) = w.totalSupply ∧
      (∀ account, 0 ≤ getShares w account) ∧
      -virtualOffset < w.totalAssets ∧ w.totalAssets ≤ w.tokens c.asset vault := by
  have books := books_of_reachable reach
  obtain ⟨c, hc, -, -, held⟩ := books.config
  have above := books.managed_pos
  unfold managed at above
  exact ⟨c, hc, books.ledger.sum, books.ledger.getD_nonneg, by omega, held⟩

/-- The recorded assets fall below zero, and stay above the negative of the offset. -/
theorem mispricedVault_books :
    ∃ w : World ℕ, mispricedVault = .ok w ∧ w.totalAssets < 0 ∧ -virtualOffset < w.totalAssets := by
  obtain ⟨w, hw, negative⟩ : ∃ w, mispricedVault = .ok w ∧ w.totalAssets < 0 := by decide
  obtain ⟨_, -, -, -, above, -⟩ := books_of_any_mints (mispricedVault_reachable hw)
  exact ⟨w, hw, negative, above⟩

end Erc4626Vault
