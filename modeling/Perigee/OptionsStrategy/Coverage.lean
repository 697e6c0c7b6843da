import Perigee.OptionsStrategy.Contract

/-!
# Coverage of written calls

A write is checked against the underlying alone: the calls that are short already do not count.
Over a run the short calls of the account are what was written and not settled
(`shortCalls_of_run`).
-/

namespace OptionsStrategy

open Soroban

variable {Address σ : Type} [DecidableEq Address] {market : Market Address σ} {this : Address}

def Action.written : Action Address σ → ℤ
  | .call _ (.writeCoveredCall amount _ _) => amount
  | .call _ (.settle .coveredCall amount) => -amount
  | _ => 0

/-- The calls that the actions wrote and did not settle. -/
def outstanding (actions : List (Action Address σ)) : ℤ := (actions.map Action.written).sum

/-- The calls that the account is short are within its underlying. -/
def OptionsAccount.Covered (account : OptionsAccount) : Prop :=
  account.shortCalls ≤ account.underlying

section Account

variable {w w' : World Address σ} {host : Host Address} {account : OptionsAccount}

omit [DecidableEq Address] in
theorem readAccount_ok (h : readAccount market this w = .ok account) :
    account = market.account this w.market := by
  simp only [readAccount, ok_iff] at h
  obtain ⟨_, -, _, -, _, -, rfl⟩ := h
  rfl

omit [DecidableEq Address] in
theorem ensureDeltaBand_ok (h : ensureDeltaBand market this w = .ok account) :
    account = market.account this w.market := by
  simp only [ensureDeltaBand, ok_iff] at h
  obtain ⟨_, read, _, -, _, -, rfl⟩ := h
  exact readAccount_ok read

omit [DecidableEq Address] in
theorem writeCoveredCall_ok {amount strikePrice : ℤ} {expiry : ℕ} {position : OptionPosition}
    (h : writeCoveredCall market this host amount strikePrice expiry w =
      .ok ((position, account), w')) :
    0 < amount ∧ amount ≤ (market.account this w.market).underlying ∧
      account = market.account this w'.market ∧
      ∃ underlying strike, market.writeCoveredCall underlying strike amount strikePrice expiry this
        w.market = some (position, w'.market) := by
  simp only [writeCoveredCall, ok_iff, Prod.exists] at h
  obtain ⟨_, -, _, positive, _, -, _, -, _, read, _, within, _, -, position', _, wrote,
    _, -, account', banded, result⟩ := h
  obtain ⟨⟨rfl, rfl⟩, rfl⟩ : (position' = position ∧ account' = account) ∧ _ = w' := by
    simpa only [Prod.mk.injEq] using result
  obtain rfl := readAccount_ok read
  exact ⟨not_le.1 positive, not_lt.1 within, ensureDeltaBand_ok banded, _, _, wrote⟩

theorem exec_shortCalls {call : Call Address} (faithful : Faithful market this)
    (h : exec market this host w call = .ok w') :
    (market.account this w'.market).shortCalls = (market.account this w.market).shortCalls +
      (Action.call (σ := σ) host call).written := by
  cases call <;>
    simp only [exec, initializeStrategy, buyProtectivePut, settle, hedge, setMaxAbsDeltaBps,
      setOperator, map_snd_ok_iff, ok_iff, Prod.exists] at h
  case initializeStrategy =>
    obtain ⟨_, -, _, -, _, -, _, -, rfl⟩ := h
    exact (add_zero _).symm
  case writeCoveredCall =>
    obtain ⟨position, _, h⟩ := h
    obtain ⟨-, -, -, _, _, wrote⟩ := writeCoveredCall_ok h
    exact (faithful.written wrote).1
  case buyProtectivePut =>
    obtain ⟨_, _, _, -, _, -, _, -, _, -, _, -, config, -, position, next, bought, _, -, _, -, -,
      rfl⟩ := h
    exact (faithful.bought bought).trans (add_zero _).symm
  case settle kind amount =>
    obtain ⟨_, _, _, -, _, -, _, -, _, next, settled, _, -, -, rfl⟩ := h
    rw [faithful.settled settled]
    cases kind with
    | coveredCall => rfl
    | protectivePut => simp [Action.written]
  case hedge =>
    obtain ⟨_, _, -, _, -, config, -, _, -, next, hedged, _, -, -, rfl⟩ := h
    exact (faithful.hedged hedged).trans (add_zero _).symm
  case setMaxAbsDeltaBps =>
    obtain ⟨_, -, _, -, rfl⟩ := h
    exact (add_zero _).symm
  case setOperator =>
    obtain ⟨_, -, rfl⟩ := h
    exact (add_zero _).symm

end Account

section Run

variable {w₀ w : World Address σ} {actions : List (Action Address σ)}

theorem shortCalls_of_run (faithful : Faithful market this)
    (run : Run (Step market this) w₀ actions w) :
    (market.account this w.market).shortCalls =
      (market.account this w₀.market).shortCalls + outstanding actions := by
  induction run with
  | nil => simp [outstanding]
  | @snoc _ w₁ w₂ action _ last ih =>
    have one : (market.account this w₂.market).shortCalls =
        (market.account this w₁.market).shortCalls + action.written := by
      cases action with
      | call => exact exec_shortCalls faithful last
      | others =>
        obtain ⟨rfl, same⟩ := last
        exact same.trans (add_zero _).symm
    simp only [one, ih, outstanding, List.map_append, List.sum_append, List.map_cons, List.map_nil,
      List.sum_singleton]
    ring

/-- After a run from an account with no short calls, a write that returns leaves the account with
the calls that were outstanding and the new ones.  Alone the new calls are covered; all of them are
exactly if the new ones are within what the outstanding ones leave of the underlying. -/
theorem covered_after_write (faithful : Faithful market this)
    (none : (market.account this w₀.market).shortCalls = 0)
    (run : Run (Step market this) w₀ actions w) {host : Host Address} {amount strikePrice : ℤ}
    {expiry : ℕ} {position : OptionPosition} {account : OptionsAccount} {w' : World Address σ}
    (done : writeCoveredCall market this host amount strikePrice expiry w =
      .ok ((position, account), w')) :
    account = market.account this w'.market ∧
      account.shortCalls = outstanding actions + amount ∧ amount ≤ account.underlying ∧
      (account.Covered ↔ amount ≤ account.underlying - outstanding actions) := by
  obtain ⟨-, within, rfl, _, _, wrote⟩ := writeCoveredCall_ok done
  obtain ⟨short, kept⟩ := faithful.written wrote
  rw [shortCalls_of_run faithful run, none, zero_add] at short
  rw [← kept] at within
  refine ⟨rfl, short, within, ?_⟩
  rw [OptionsAccount.Covered]
  omega

end Run

/-! ## A market with one account -/

/-- The market keeps the account as it is told, and quotes no premium and no delta. -/
def plainMarket : Market ℕ OptionsAccount where
  writeCoveredCall _ _ amount strikePrice expiry _ account :=
    some (⟨.coveredCall, amount, strikePrice, expiry, 0, 0⟩,
      { account with shortCalls := account.shortCalls + amount })
  buyProtectivePut _ _ amount strikePrice expiry premium _ account :=
    some (⟨.protectivePut, amount, strikePrice, expiry, premium, 0⟩,
      { account with longPuts := account.longPuts + amount })
  settle kind amount _ account := some (0, match kind with
    | .coveredCall => { account with shortCalls := account.shortCalls - amount }
    | .protectivePut => { account with longPuts := account.longPuts - amount })
  hedge targetDeltaBps _ account := some { account with netDeltaBps := targetDeltaBps }
  account _ account := account

theorem plainMarket_faithful : Faithful plainMarket 0 where
  written h := by
    obtain ⟨-, rfl⟩ := Prod.mk.inj (Option.some.inj h)
    exact ⟨rfl, rfl⟩
  bought h := by
    obtain ⟨-, rfl⟩ := Prod.mk.inj (Option.some.inj h)
    rfl
  settled {kind} _ _ _ _ h := by
    obtain ⟨-, rfl⟩ := Prod.mk.inj (Option.some.inj h)
    cases kind with
    | coveredCall => rfl
    | protectivePut => exact (sub_zero _).symm
  hedged h := by
    obtain rfl := Option.some.inj h
    rfl

def funded : World ℕ OptionsAccount where
  config := some ⟨1, 2, .lyra, 9, 5, 6, 10000⟩
  market := ⟨100, 0, 0, 0⟩

def operated : Host ℕ := ⟨0, fun _ => true⟩

/-- Writing sixty calls, settling twenty and writing sixty again stays within the underlying. -/
theorem settled_then_covered : ∃ w w' position account,
    Run (Step plainMarket 0) funded
      [.call operated (.writeCoveredCall 60 7 1), .call operated (.settle .coveredCall 20)] w ∧
    writeCoveredCall plainMarket 0 operated 60 7 1 w = .ok ((position, account), w') ∧
    account.shortCalls = 100 ∧ account.Covered := by
  have first : Step plainMarket 0 funded (.call operated (.writeCoveredCall 60 7 1))
      { funded with market := ⟨100, 60, 0, 0⟩ } := rfl
  have second : Step plainMarket 0 { funded with market := ⟨100, 60, 0, 0⟩ }
      (.call operated (.settle .coveredCall 20)) { funded with market := ⟨100, 40, 0, 0⟩ } := rfl
  have run := (Run.nil.snoc first).snoc second
  have done : writeCoveredCall plainMarket 0 operated 60 7 1
      { funded with market := ⟨100, 40, 0, 0⟩ } =
      .ok ((⟨.coveredCall, 60, 7, 1, 0, 0⟩, ⟨100, 100, 0, 0⟩),
        { funded with market := ⟨100, 100, 0, 0⟩ }) := rfl
  obtain ⟨-, short, -, covered⟩ := covered_after_write plainMarket_faithful rfl run done
  exact ⟨_, _, _, _, run, done, short, covered.2 (by decide)⟩

/-- Two writes of all the underlying leave the account short of twice what it has. -/
theorem written_twice : ∃ w w' position account,
    Faithful plainMarket 0 ∧ (plainMarket.account 0 funded.market).shortCalls = 0 ∧
    Run (Step plainMarket 0) funded [.call operated (.writeCoveredCall 100 7 1)] w ∧
    writeCoveredCall plainMarket 0 operated 100 7 1 w = .ok ((position, account), w') ∧
    account.underlying = 100 ∧ account.shortCalls = 200 ∧ ¬ account.Covered := by
  have first : Step plainMarket 0 funded (.call operated (.writeCoveredCall 100 7 1))
      { funded with market := ⟨100, 100, 0, 0⟩ } := rfl
  refine ⟨_, { funded with market := ⟨100, 200, 0, 0⟩ }, ⟨.coveredCall, 100, 7, 1, 0, 0⟩,
    ⟨100, 200, 0, 0⟩, plainMarket_faithful, rfl, Run.nil.snoc first, rfl, rfl, rfl, ?_⟩
  simp [OptionsAccount.Covered]

end OptionsStrategy
