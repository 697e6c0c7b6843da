import Perigee.Erc4626Vault.Conversions

/-!
# What the vault's entry points do

Deposits, mints and withdrawals are trades of assets for shares of one account (`Trade`).
-/

namespace Erc4626Vault

open Soroban

variable {Address : Type} [DecidableEq Address] {vault : Address} {env : Env vault}

/-- `da` assets are exchanged for `ds` shares of `account` (both negative in a withdrawal): the
two totals, the account's balance and the vault's tokens move together, a burn is covered by the
account's balance and a payment by the vault's. -/
structure Trade (vault account : Address) (da ds : ℤ) (w w' : World Address) : Prop where
  config : w'.config = w.config
  totalAssets : w'.totalAssets = w.totalAssets + da
  totalSupply : w'.totalSupply = w.totalSupply + ds
  shares : w'.shares = w.shares.set account (getShares w account + ds)
  covered : 0 ≤ ds ∨ 0 ≤ getShares w account + ds
  tokens : ∀ c, w.config = some c → w.tokens c.asset vault + da ≤ w'.tokens c.asset vault
  paid : ∀ c, w.config = some c → 0 ≤ da ∨ 0 ≤ w.tokens c.asset vault + da

/-! ## Helpers -/

section Calls

variable {w w' w₁ w₂ w₃ : World Address} {amount delta shares assets r : ℤ}
  {account caller owner receiver : Address} {config : VaultConfig Address}

theorem moveAssets_ok_iff {asset src dst : Address} :
    moveAssets w asset src dst amount = .ok w' ↔
      ∃ tokens, (w.tokens.transfer asset src dst amount : Outcome Error _) = .ok tokens ∧
        w' = { w with tokens } := by
  simp only [moveAssets, ok_iff, @eq_comm _ w']

omit [DecidableEq Address] in
theorem addTotalAssets_eq (h : addTotalAssets w delta = .ok w') :
    w' = { w with totalAssets := w.totalAssets + delta } := by
  simp only [addTotalAssets, ok_iff] at h
  obtain ⟨_, ⟨-, rfl⟩, rfl⟩ := h
  rfl

omit [DecidableEq Address] in
theorem addTotalSupply_eq (h : addTotalSupply w delta = .ok w') :
    w' = { w with totalSupply := w.totalSupply + delta } := by
  simp only [addTotalSupply, ok_iff] at h
  obtain ⟨_, ⟨-, rfl⟩, rfl⟩ := h
  rfl

theorem creditShares_eq (h : creditShares w account shares = .ok w') :
    w' = setShares w account (getShares w account + shares) := by
  simp only [creditShares, ok_iff] at h
  obtain ⟨_, ⟨-, rfl⟩, rfl⟩ := h
  rfl

theorem consumeAllowance_frame {consumed : ℤ}
    (h : consumeAllowance caller owner consumed w = .ok w') :
    ∃ allowances, w' = { w with allowances } := by
  unfold consumeAllowance at h
  split_ifs at h
  · exact ⟨_, (pure_ok_iff.1 h).symm⟩
  · split at h
    · exact ⟨_, (pure_ok_iff.1 h).symm⟩
    · obtain ⟨_, -, h⟩ := bind_ok_iff.1 h
      split_ifs at h <;> exact ⟨_, (pure_ok_iff.1 h).symm⟩

theorem trade_of_issue (hc : w.config = some config) (auth : env.auth caller = true)
    (hs : 0 ≤ shares) (move : moveAssets w config.asset caller vault assets = .ok w₁)
    (credit : creditShares w₁ receiver shares = .ok w₂)
    (addAssets : addTotalAssets w₂ assets = .ok w₃)
    (addSupply : addTotalSupply w₃ shares = .ok w') :
    Trade vault receiver assets shares w w' := by
  obtain ⟨_, transfer, rfl⟩ := moveAssets_ok_iff.1 move
  obtain rfl := creditShares_eq credit
  obtain rfl := addTotalAssets_eq addAssets
  obtain rfl := addTotalSupply_eq addSupply
  refine ⟨rfl, rfl, rfl, rfl, .inl hs, fun c h => ?_,
    fun _ _ => .inl (Tokens.transfer_ok_iff.1 transfer).1⟩
  obtain rfl := Option.mem_unique hc h
  have moved := Tokens.transfer_apply transfer config.asset vault
  rw [if_neg (fun h => (Env.ne_this auth) h.2.symm), if_pos ⟨rfl, rfl⟩, sub_zero] at moved
  exact moved.ge

theorem trade_of_burn {w₀ w₄ : World Address} (hc : w.config = some config)
    (before : ∃ allowances, w₀ = { w with allowances })
    (debit : debitShares w₀ owner shares = .ok w₁)
    (after : ∃ allowances, w₂ = { w₁ with allowances })
    (move : moveAssets w₂ config.asset vault receiver assets = .ok w₃)
    (addAssets : addTotalAssets w₃ (-assets) = .ok w₄)
    (addSupply : addTotalSupply w₄ (-shares) = .ok w') :
    Trade vault owner (-assets) (-shares) w w' := by
  obtain ⟨_, rfl⟩ := before
  simp only [debitShares, ok_iff, not_lt] at debit
  obtain ⟨_, enough, _, ⟨-, rfl⟩, rfl⟩ := debit
  obtain ⟨_, rfl⟩ := after
  obtain ⟨tokens, transfer, rfl⟩ := moveAssets_ok_iff.1 move
  obtain rfl := addTotalAssets_eq addAssets
  obtain rfl := addTotalSupply_eq addSupply
  change shares ≤ getShares w owner at enough
  obtain ⟨_, covered, -⟩ := Tokens.transfer_ok_iff.1 transfer
  change assets ≤ w.tokens config.asset vault at covered
  refine ⟨rfl, rfl, rfl, rfl, .inr (by omega), fun c h => ?_, fun c h => .inr ?_⟩
  · obtain rfl := Option.mem_unique hc h
    have moved := Tokens.transfer_apply transfer config.asset vault
    change _ ≤ tokens config.asset vault
    change _ = w.tokens config.asset vault - _ + _ at moved
    split_ifs at moved <;> omega
  · obtain rfl := Option.mem_unique hc h
    omega

/-! ## Entry points -/

theorem mint_trade (h : mint env caller shares receiver w = .ok (r, w')) :
    ∃ assets, 0 < shares ∧ 0 < assets ∧ assetsToSharesCeil w shares = .ok assets ∧
      Trade vault receiver assets shares w w' := by
  simp only [mint, requirePositive, loadConfig, ok_iff, requireAuth_ok_iff, Prod.mk.injEq] at h
  obtain ⟨_, pos, _, -, _, hc, _, auth, assets, convert, _, some, _, move, _, credit,
    _, addAssets, _, addSupply, -, rfl⟩ := h
  exact ⟨assets, not_le.1 pos, not_le.1 some, convert,
    trade_of_issue hc auth (not_le.1 pos).le move credit addAssets addSupply⟩

theorem harvest_effect {admin : Address} (h : harvest env admin w = .ok (r, w')) :
    ∃ config updated fee, w.config = some config ∧ w'.config = some updated ∧
      updated.asset = config.asset ∧ updated.performanceFeeBps = config.performanceFeeBps ∧
      harvestFee config (w.tokens config.asset vault - w.totalAssets) = .ok fee ∧
      w'.totalAssets = w.tokens config.asset vault - fee ∧
      w'.totalSupply = w.totalSupply ∧ w'.shares = w.shares ∧
      (0 < fee → fee ≤ w.tokens config.asset vault) ∧
      (0 ≤ fee → w.tokens config.asset vault - fee ≤ w'.tokens config.asset vault) := by
  simp only [harvest, loadConfig, ok_iff] at h
  obtain ⟨_, -, config, hc, _, ⟨-, rfl⟩, fee, hfee, _, pay, _, ⟨-, rfl⟩, -, rfl⟩ := h
  refine ⟨config, _, fee, hc, rfl, rfl, rfl, hfee, rfl, ?_⟩
  unfold payHarvestFee at pay
  split_ifs at pay with charged
  · obtain ⟨tokens, transfer, rfl⟩ := moveAssets_ok_iff.1 pay
    have moved := Tokens.transfer_apply transfer config.asset vault
    refine ⟨rfl, rfl, fun _ => (Tokens.transfer_ok_iff.1 transfer).2.1, fun _ => ?_⟩
    change _ ≤ tokens config.asset vault
    split_ifs at moved <;> omega
  · obtain rfl := pure_ok_iff.1 pay
    exact ⟨rfl, rfl, fun h => absurd h charged, fun h => by simpa using h⟩

end Calls

/-! ## The system -/

inductive Call (Address : Type) where
  | deposit (caller : Address) (assets : ℤ) (receiver : Address)
  | mint (caller : Address) (shares : ℤ) (receiver : Address)
  | withdraw (caller : Address) (assets : ℤ) (receiver owner : Address)
  | redeem (caller : Address) (shares : ℤ) (receiver owner : Address)
  | permitWithdraw (spender owner : Address) (assets : ℤ) (receiver : Address)
  | approve (caller spender : Address) (shares : ℤ) (validUntil : ℕ)
  | revoke (caller spender : Address)
  | setPaused (admin : Address) (paused : Bool)
  | setAdmin (admin newAdmin : Address)
  | setFeeRecipient (admin recipient : Address)
  | setVerifier (admin : Address) (kind : VerifierKind) (verifier : Option Address)
  | harvest (admin : Address)

def exec (env : Env vault) (w : World Address) : Call Address → Outcome Error (World Address)
  | .deposit caller assets receiver => Prod.snd <$> deposit env caller assets receiver w
  | .mint caller shares receiver => Prod.snd <$> mint env caller shares receiver w
  | .withdraw caller assets receiver owner =>
    Prod.snd <$> withdraw env caller assets receiver owner w
  | .redeem caller shares receiver owner => Prod.snd <$> redeem env caller shares receiver owner w
  | .permitWithdraw spender owner assets receiver =>
      Prod.snd <$> permitWithdraw env spender owner assets receiver w
  | .approve caller spender shares validUntil => approve env caller spender shares validUntil w
  | .revoke caller spender => revoke env caller spender w
  | .setPaused admin paused => setPaused env admin paused w
  | .setAdmin admin newAdmin => setAdmin env admin newAdmin w
  | .setFeeRecipient admin recipient => setFeeRecipient env admin recipient w
  | .setVerifier admin kind verifier => setVerifier env admin kind verifier w
  | .harvest admin => Prod.snd <$> harvest env admin w

inductive Action (vault : Address) where
  | call (env : Env vault) (c : Call Address)
  | external (tokens : Tokens Address)

/-- One step of the system.  Tokens leave the vault only in its own calls, so an external change
of the ledger (a donation, an issue, a transfer between other accounts) lowers none of the vault's
balances. -/
def Step (vault : Address) (w : World Address) (action : Action vault) (w' : World Address) :
    Prop :=
  match action with
  | .call env c => exec env w c = .ok w'
  | .external tokens =>
      (∀ token, w.tokens token vault ≤ tokens token vault) ∧ w' = { w with tokens }

theorem step_call {w w' : World Address} {c : Call Address} (h : exec env w c = .ok w') :
    Step vault w (.call env c) w' := h

theorem step_donation (w : World Address) (token : Address) {amount : ℤ} (h : 0 ≤ amount) :
    Step vault w (.external (w.tokens.add token vault amount))
      { w with tokens := w.tokens.add token vault amount } := by
  refine ⟨fun k => ?_, rfl⟩
  rw [Tokens.add_apply]
  split_ifs <;> omega

def Initial (vault : Address) (w : World Address) : Prop :=
  ∃ (env : Env vault) (asset admin feeRecipient : Address) (performanceFeeBps : ℕ)
    (tokens : Tokens Address), (∀ token holder, 0 ≤ tokens token holder) ∧
      initializeVault env asset admin feeRecipient performanceFeeBps { tokens } = .ok w

/-! ## The cases of a step -/

/-- A step that is no trade and no harvest: the totals and the shares stay, the vault's tokens do
not fall, and the configuration keeps its asset and fee. -/
structure Frame (vault : Address) (w w' : World Address) : Prop where
  totalAssets : w'.totalAssets = w.totalAssets
  totalSupply : w'.totalSupply = w.totalSupply
  shares : w'.shares = w.shares
  tokens : ∀ token, w.tokens token vault ≤ w'.tokens token vault
  config : ∀ c, w.config = some c → ∃ c', w'.config = some c' ∧ c'.asset = c.asset ∧
    c'.performanceFeeBps = c.performanceFeeBps

omit [DecidableEq Address] in
theorem Frame.of_storage {w w' : World Address} (hA : w'.totalAssets = w.totalAssets)
    (hS : w'.totalSupply = w.totalSupply) (hs : w'.shares = w.shares) (ht : w'.tokens = w.tokens)
    (hc : w'.config = w.config) : Frame vault w w' :=
  ⟨hA, hS, hs, fun _ => by rw [ht], fun c h => ⟨c, hc.trans h, rfl, rfl⟩⟩

/-- A trade no cheaper than the share price. -/
def FairTrade (vault : Address) (w w' : World Address) : Prop :=
  ∃ account da ds, Trade vault account da ds w w' ∧ (Priced w → ds * managed w ≤ da * supply w)

def Call.IsTrade : Call Address → Prop
  | .deposit .. | .mint .. | .withdraw .. | .redeem .. | .permitWithdraw .. => True
  | _ => False

def Call.IsFair : Call Address → Prop
  | .deposit .. | .withdraw .. | .redeem .. | .permitWithdraw .. => True
  | _ => False

theorem fairTrade_of_exec {w w' : World Address} {c : Call Address}
    (h : exec env w c = .ok w') (hc : c.IsFair) : FairTrade vault w w' := by
  cases c <;>
    simp only [exec, map_snd_ok_iff, deposit, withdraw, redeem, permitWithdraw, requirePositive,
      loadConfig, ok_iff, requireAuth_ok_iff, not_le] at h
  case deposit =>
    obtain ⟨_, _, pos, _, -, _, hc, _, auth, _, convert, _, some, _, move, _, credit, _, addAssets,
      _, addSupply, -, rfl⟩ := h
    exact ⟨_, _, _, trade_of_issue hc auth some.le move credit addAssets addSupply,
      fun priced => (assetsToSharesFloor_bounds priced pos.le convert).1⟩
  case withdraw =>
    obtain ⟨_, _, pos, _, -, _, hc, _, convert, _, -, _, -, _, debit, _, consume, _, move, _,
      addAssets, _, addSupply, -, rfl⟩ := h
    refine ⟨_, _, _, trade_of_burn hc ⟨_, rfl⟩ debit (consumeAllowance_frame consume) move addAssets
      addSupply, fun priced => ?_⟩
    have := (assetsToSharesCeil_bounds priced pos.le convert).1
    linarith
  case redeem =>
    obtain ⟨_, _, pos, _, -, _, hc, _, convert, _, -, _, debit, _, consume, _, move, _, addAssets,
      _, addSupply, -, rfl⟩ := h
    refine ⟨_, _, _, trade_of_burn hc ⟨_, rfl⟩ debit (consumeAllowance_frame consume) move addAssets
      addSupply, fun priced => ?_⟩
    have := (sharesToAssetsFloor_bounds priced pos.le convert).1
    linarith
  case permitWithdraw =>
    obtain ⟨_, _, pos, _, -, _, -, _, hc, _, -, _, -, _, convert, _, -, _, -, _, -, _, debit, _,
      move, _, addAssets, _, addSupply, -, rfl⟩ := h
    refine ⟨_, _, _, trade_of_burn hc ?_ debit ⟨_, rfl⟩ move addAssets addSupply, fun priced => ?_⟩
    · split_ifs <;> exact ⟨_, rfl⟩
    · have := (assetsToSharesCeil_bounds priced pos.le convert).1
      linarith
  all_goals exact hc.elim

inductive StepCase (vault : Address) (w w' : World Address) : Action vault → Prop where
  | fair {env c} : FairTrade vault w w' → StepCase vault w w' (.call env c)
  | mint {env caller shares receiver assets} : 0 < shares → 0 < assets →
      assetsToSharesCeil w shares = .ok assets → Trade vault receiver assets shares w w' →
      StepCase vault w w' (.call env (.mint caller shares receiver))
  | harvest {env admin r} : Erc4626Vault.harvest env admin w = .ok (r, w') →
      StepCase vault w w' (.call env (.harvest admin))
  | frame {action} : Frame vault w w' → StepCase vault w w' action

theorem step_cases {w w' : World Address} {action : Action vault} (h : Step vault w action w') :
    StepCase vault w w' action := by
  cases action with
  | external =>
    obtain ⟨grows, rfl⟩ := h
    exact .frame ⟨rfl, rfl, rfl, grows, fun c hc => ⟨c, hc, rfl, rfl⟩⟩
  | call env c =>
    change exec env w c = .ok w' at h
    cases c with
    | deposit | withdraw | redeem | permitWithdraw => exact .fair (fairTrade_of_exec h trivial)
    | mint =>
      obtain ⟨r, h⟩ := map_snd_ok_iff.1 h
      obtain ⟨_, pos, some, convert, trade⟩ := mint_trade h
      exact .mint pos some convert trade
    | approve =>
      simp only [exec, approve, ok_iff] at h
      obtain ⟨_, -, _, -, _, -, rfl⟩ := h
      exact .frame (.of_storage rfl rfl rfl rfl rfl)
    | revoke | setPaused | setVerifier =>
      simp only [exec, revoke, setPaused, setVerifier, ok_iff] at h
      obtain ⟨_, -, rfl⟩ := h
      exact .frame (.of_storage rfl rfl rfl rfl rfl)
    | setAdmin | setFeeRecipient =>
      simp only [exec, setAdmin, setFeeRecipient, loadConfig, ok_iff] at h
      obtain ⟨_, -, _, hc, rfl⟩ := h
      refine .frame ⟨rfl, rfl, rfl, fun _ => le_rfl, fun c h => ⟨_, rfl, ?_⟩⟩
      obtain rfl := Option.mem_unique hc h
      exact ⟨rfl, rfl⟩
    | harvest =>
      obtain ⟨r, h⟩ := map_snd_ok_iff.1 h
      exact .harvest h

end Erc4626Vault
