import Perigee.VaultInsurance.Backing

/-!
# Payouts and the coverage of a policy

A claim is opened for at most the coverage of the policy and settled once for at most its amount.  A
settled claim can be closed and the next one opened for the whole coverage again.  The payouts stay
within the coverage exactly when no claim is settled for more than the earlier payouts have left of
it (`payouts_within_coverage`).
-/

namespace VaultInsurance

open Soroban

section Contract

variable {Address : Type} [DecidableEq Address] {registry : Address} {env : Env registry}
  {w w' : World Address} {caller vault : Address} {amount : ℤ}

/-- A registry with the history of the claims on one vault: how many were opened, and the payouts
with the number of the claim that each settled, newest first. -/
structure Settled (Address : Type) where
  world : World Address
  opened : ℕ := 0
  payouts : List (ℕ × ℤ) := []

def Settled.paid (m : Settled Address) : ℤ := (m.payouts.map Prod.snd).sum

def Settled.coverage (vault : Address) (m : Settled Address) : Option ℤ :=
  (m.world.policies.lookup vault).map Policy.coverage

/-- How many claims on `vault` a call opens. -/
def claimsOpened (vault : Address) : Call Address → ℕ
  | .openClaim _ insured _ _ => if insured = vault then 1 else 0
  | _ => 0

/-- What a call pays for the claim on `vault`. -/
def payoutsMade (vault : Address) (m : Settled Address) : Call Address → List (ℕ × ℤ)
  | .settle _ insured payout => if insured = vault then [(m.opened, payout)] else []
  | _ => []

def settledExec (vault : Address) (env : Env registry) (m : Settled Address)
    (call : Call Address) : Outcome Error (Settled Address) := do
  let world ← exec env m.world call
  pure
    { world
      opened := m.opened + claimsOpened vault call
      payouts := payoutsMade vault m call ++ m.payouts }

def SettledStep (registry vault : Address) (m : Settled Address)
    (action : Env registry × Call Address) (m' : Settled Address) : Prop :=
  settledExec vault action.1 m action.2 = .ok m'

def SettledInitial (registry : Address) (m : Settled Address) : Prop :=
  ∃ w, Initial registry w ∧ m = { world := w }

/-- Every claim was settled at most once, and the payouts are within the coverage of the policy. -/
def PayoutsCapped (vault : Address) (m : Settled Address) : Prop :=
  (m.payouts.map Prod.fst).Nodup ∧ ∀ coverage ∈ m.coverage vault, m.paid ≤ coverage

/-- The claim on `vault` is settled for at most what earlier payouts have left of the coverage. -/
def SettlesWithin (vault : Address) (m : Settled Address) (action : Env registry × Call Address) :
    Prop :=
  match action.2 with
  | .settle _ insured payout =>
      insured = vault → ∀ coverage ∈ m.coverage vault, m.paid + payout ≤ coverage
  | _ => True

instance (vault : Address) (m : Settled Address) :
    DecidablePred fun action : Env registry × Call Address => SettlesWithin vault m action
  | (_, .settle _ insured payout) => inferInstanceAs (Decidable (insured = vault →
      ∀ coverage ∈ m.coverage vault, m.paid + payout ≤ coverage))
  | (_, .write ..) | (_, .cancel ..) | (_, .deposit ..) | (_, .withdraw ..) | (_, .fund ..)
  | (_, .openClaim ..) | (_, .closeClaim ..) => .isTrue trivial

variable {m m' : Settled Address} {action : Env registry × Call Address}

/-! ## What the calls do to the claims -/

/-- `cond` is the condition of `SettlesWithin`. -/
inductive ClaimEffect (vault : Address) (m m' : Settled Address) (cond : Prop) : Prop where
  | idle (coverage : m'.coverage vault = m.coverage vault)
      (claim : m'.world.claims.lookup vault = m.world.claims.lookup vault)
      (opened : m'.opened = m.opened) (payouts : m'.payouts = m.payouts) (meets : cond)
  | write (amount : ℤ) (positive : 0 < amount) (fresh : m.coverage vault = none)
      (coverage : m'.coverage vault = some amount)
      (claim : m'.world.claims.lookup vault = m.world.claims.lookup vault)
      (opened : m'.opened = m.opened) (payouts : m'.payouts = m.payouts) (meets : cond)
  | openClaim (covered : ℤ) (claim : Claim Address) (before : m.coverage vault = some covered)
      (coverage : m'.coverage vault = some covered)
      (claim' : m'.world.claims.lookup vault = some claim)
      (opened : m'.opened = m.opened + 1) (payouts : m'.payouts = m.payouts) (meets : cond)
  | settle (claim : Claim Address) (payout : ℤ) (unsettled : claim.settled = false)
      (coverage : m'.coverage vault = m.coverage vault)
      (open' : m.world.claims.lookup vault = some claim)
      (claim' : m'.world.claims.lookup vault = some { claim with settled := true })
      (opened : m'.opened = m.opened) (payouts : m'.payouts = (m.opened, payout) :: m.payouts)
      (meets : cond ↔ ∀ coverage ∈ m.coverage vault, m.paid + payout ≤ coverage)
  | closeClaim (coverage : m'.coverage vault = m.coverage vault)
      (claim : m'.world.claims.lookup vault = none)
      (opened : m'.opened = m.opened) (payouts : m'.payouts = m.payouts) (meets : cond)

theorem coverage_save {insured : Address} {policy policy' : Policy Address}
    (before : m.world.policies.lookup insured = some policy)
    (h : m'.world.policies = m.world.policies.set insured policy')
    (same : policy'.coverage = policy.coverage) : m'.coverage vault = m.coverage vault := by
  rw [Settled.coverage, Settled.coverage, h, Store.lookup_set]
  split_ifs with own
  · rw [own, before, Option.map_some, Option.map_some, same]
  · rfl

theorem SettledStep.effect (sound : Sound m.world) (step : SettledStep registry vault m action m') :
    ClaimEffect vault m m' (SettlesWithin vault m action) := by
  obtain ⟨env, call⟩ := action
  obtain ⟨world, run, step⟩ := bind_ok_iff.1 step
  obtain rfl := pure_ok_iff.1 step
  cases call with
  | write _ insured _ coverage =>
    obtain ⟨_, policy, positive, fresh, -, -, -, amount, -, rfl⟩ := write_ok run
    by_cases own : insured = vault
    · subst own
      refine .write coverage positive ?_ ?_ rfl rfl rfl trivial
      · rw [Settled.coverage, fresh, Option.map_none]
      · change ((m.world.policies.set insured policy).lookup insured).map _ = _
        rw [Store.lookup_set_self, Option.map_some, amount]
    · refine .idle ?_ rfl rfl rfl trivial
      change ((m.world.policies.set insured policy).lookup vault).map _ = _
      rw [Store.lookup_set_of_ne _ _ (Ne.symm own), Settled.coverage]
  | cancel =>
    obtain ⟨_, policy, hp, -, -, rfl⟩ := cancel_ok run
    exact .idle (coverage_save hp rfl rfl) rfl rfl rfl trivial
  | deposit payer amount =>
    change deposit env payer amount m.world = .ok world at run
    obtain ⟨policy, hp, _, -, rfl, -⟩ := deposit_ok run
    exact .idle (coverage_save hp rfl rfl) rfl rfl rfl trivial
  | withdraw =>
    obtain ⟨r, run⟩ := map_snd_ok_iff.1 run
    obtain ⟨_, policy, _, hp, -, -, -, -, same, -, -, rfl⟩ := withdraw_ok sound run
    exact .idle (coverage_save hp rfl same) rfl rfl rfl trivial
  | fund =>
    obtain ⟨_, -, -, rfl⟩ := fund_ok run
    exact .idle rfl rfl rfl rfl trivial
  | openClaim _ insured =>
    obtain ⟨policy, claim, hp, -, -, rfl, -, rfl⟩ := openClaim_ok run
    by_cases own : insured = vault
    · subst own
      have before : m.coverage insured = some policy.coverage := by
        rw [Settled.coverage, hp, Option.map_some]
      refine .openClaim policy.coverage claim before before (Store.lookup_set_self _ _ _) ?_ rfl
        trivial
      simp only [claimsOpened, if_true]
    · refine .idle rfl (Store.lookup_set_of_ne _ _ (Ne.symm own)) ?_ rfl trivial
      simp only [claimsOpened, if_neg own, add_zero]
  | settle _ insured payout =>
    obtain ⟨_, claim, -, hc, unsettled, -, rfl⟩ := settle_ok run
    by_cases own : insured = vault
    · subst own
      refine .settle claim payout unsettled rfl hc (Store.lookup_set_self _ _ _) rfl ?_
        (forall_prop_of_true rfl)
      simp only [payoutsMade, if_true, List.singleton_append]
    · refine .idle rfl (Store.lookup_set_of_ne _ _ (Ne.symm own)) rfl ?_ fun h => absurd h own
      simp only [payoutsMade, if_neg own, List.nil_append]
  | closeClaim _ insured =>
    simp only [exec, closeClaim, ok_iff] at run
    obtain ⟨_, -, rfl⟩ := run
    by_cases own : insured = vault
    · subst own
      exact .closeClaim rfl (Store.lookup_remove_self _ _) rfl rfl trivial
    · exact .idle rfl (Store.lookup_remove_of_ne _ (Ne.symm own)) rfl rfl trivial

/-! ## Every claim is settled at most once -/

/-- The payouts are numbered by claims opened before, other than the one that is open, and there are
none without a policy. -/
structure Numbered (vault : Address) (m : Settled Address) : Prop where
  sound : Sound m.world
  once : (m.payouts.map Prod.fst).Nodup
  opened : ∀ id ∈ m.payouts.map Prod.fst, id ≤ m.opened
  unsettled : ∀ claim ∈ m.world.claims.lookup vault, claim.settled = false →
    m.opened ∉ m.payouts.map Prod.fst
  unwritten : m.coverage vault = none → m.payouts = [] ∧ m.world.claims.lookup vault = none

theorem Numbered.kept (numbered : Numbered vault m) (sound : Sound m'.world)
    (claim : m'.world.claims.lookup vault = m.world.claims.lookup vault)
    (opened : m'.opened = m.opened) (payouts : m'.payouts = m.payouts)
    (unwritten : m'.coverage vault = none → m.coverage vault = none) : Numbered vault m' := by
  refine ⟨sound, ?_, ?_, ?_, fun h => ?_⟩ <;> rw [payouts]
  · exact numbered.once
  · rw [opened]
    exact numbered.opened
  · rw [opened, claim]
    exact numbered.unsettled
  · rw [claim]
    exact numbered.unwritten (unwritten h)

theorem Numbered.step (numbered : Numbered vault m)
    (step : SettledStep registry vault m action m') :
    Numbered vault m' := by
  have effect := step.effect numbered.sound
  have sound : Sound m'.world := by
    obtain ⟨_, run, step⟩ := bind_ok_iff.1 step
    obtain rfl := pure_ok_iff.1 step
    exact numbered.sound.step run
  cases effect with
  | idle coverage claim opened payouts =>
    exact numbered.kept sound claim opened payouts coverage.symm.trans
  | write _ _ fresh _ claim opened payouts =>
    exact numbered.kept sound claim opened payouts fun _ => fresh
  | openClaim _ _ _ coverage _ _ payouts =>
    refine ⟨sound, ?_, ?_, ?_, fun h => absurd h (by simp [coverage])⟩ <;> rw [payouts]
    · exact numbered.once
    · intro id h
      have := numbered.opened id h
      omega
    · intro _ _ _ h
      have := numbered.opened _ h
      omega
  | settle claim _ unsettled coverage open' claim' opened payouts =>
    refine ⟨sound, ?_, ?_, ?_, fun h => ?_⟩
    · rw [payouts, List.map_cons]
      exact List.nodup_cons.2 ⟨numbered.unsettled claim open' unsettled, numbered.once⟩
    · rw [payouts, List.map_cons, opened]
      exact List.forall_mem_cons.2 ⟨le_rfl, numbered.opened⟩
    · intro c h pending
      rw [claim'] at h
      obtain rfl := Option.some.inj h
      cases pending
    · rw [coverage] at h
      rw [(numbered.unwritten h).2] at open'
      cases open'
  | closeClaim coverage claim opened payouts =>
    refine ⟨sound, ?_, ?_, ?_, ?_⟩ <;> rw [payouts]
    · exact numbered.once
    · rw [opened]
      exact numbered.opened
    · simp [claim]
    · rw [coverage, claim]
      exact fun h => ⟨(numbered.unwritten h).1, rfl⟩

theorem settled_initial (init : SettledInitial registry m) :
    Numbered vault m ∧ PayoutsCapped vault m := by
  obtain ⟨w, init, rfl⟩ := init
  have sound := (initial_backed init).1
  obtain ⟨_, _, _, h⟩ := init
  simp only [initializeRegistry, ok_iff] at h
  obtain ⟨_, -, _, -, rfl⟩ := h
  refine ⟨⟨sound, .nil, ?_, ?_, fun _ => ⟨rfl, rfl⟩⟩, .nil, ?_⟩ <;> rintro _ ⟨⟩

/-! ## The payouts are within the coverage -/

theorem capped_step_iff (numbered : Numbered vault m) (capped : PayoutsCapped vault m)
    (step : SettledStep registry vault m action m') :
    PayoutsCapped vault m' ↔ SettlesWithin vault m action := by
  have once := (numbered.step step).once
  have of_same (coverage : m'.coverage vault = m.coverage vault)
      (payouts : m'.payouts = m.payouts) : PayoutsCapped vault m' := by
    refine ⟨once, ?_⟩
    rw [coverage, Settled.paid, payouts]
    exact capped.2
  cases step.effect numbered.sound with
  | idle coverage _ _ payouts meets | closeClaim coverage _ _ payouts meets =>
    exact iff_of_true (of_same coverage payouts) meets
  | openClaim _ _ before coverage _ _ payouts meets =>
    exact iff_of_true (of_same (coverage.trans before.symm) payouts) meets
  | write _ positive fresh coverage _ _ payouts meets =>
    refine iff_of_true ⟨once, fun c h => ?_⟩ meets
    rw [Settled.paid, payouts, (numbered.unwritten fresh).1]
    exact Option.mem_unique coverage h ▸ positive.le
  | settle _ payout _ coverage _ _ _ payouts meets =>
    have paid : m'.paid = m.paid + payout := by
      rw [Settled.paid, payouts, List.map_cons, List.sum_cons, add_comm, Settled.paid]
    rw [meets, PayoutsCapped, coverage, paid, and_iff_right once]

/-- Every claim is settled at most once.  Where no claim is settled for more than earlier payouts
have left of the coverage, the payouts of a policy are within its coverage, and these are exactly
the runs through such states only. -/
theorem payouts_within_coverage {m₀ m : Settled Address}
    {actions : List (Env registry × Call Address)} (vault : Address)
    (init : SettledInitial registry m₀) :
    (Run (SettledStep registry vault) m₀ actions m → (m.payouts.map Prod.fst).Nodup) ∧
      (Run (Guarded (SettlesWithin vault) (SettledStep registry vault)) m₀ actions m →
        PayoutsCapped vault m) ∧
      (Run (Guarded (SettlesWithin vault) (SettledStep registry vault)) m₀ actions m ↔
        Run (Into (PayoutsCapped vault) (SettledStep registry vault)) m₀ actions m) := by
  constructor
  · intro run
    have numbered : Numbered vault m :=
      run.invariant (settled_initial init).1 fun _ _ _ numbered step => numbered.step step
    exact numbered.once
  · exact Run.guarded_iff_into (Numbered vault) (settled_initial init)
      (fun _ _ _ numbered step => numbered.step step)
      fun _ _ _ numbered capped step => capped_step_iff numbered capped step

end Contract

/-! ## A policy that pays twice -/

def settledRun (cond : Settled ℕ → Env 0 × Call ℕ → Prop) [∀ m, DecidablePred (cond m)]
    (actions : List (Env 0 × Call ℕ)) : Outcome Error (Settled ℕ) := do
  let w ← initializeRegistry (signedAt 0) 1 2 {}
  actions.foldlM (execIf cond fun m action => settledExec 5 action.1 m action.2) { world := w }

theorem settledRun_run {cond : Settled ℕ → Env 0 × Call ℕ → Prop}
    [∀ m, DecidablePred (cond m)] {actions : List (Env 0 × Call ℕ)} {m : Settled ℕ}
    (h : settledRun cond actions = .ok m) :
    ∃ m₀, SettledInitial 0 m₀ ∧ Run (Guarded cond (SettledStep 0 5)) m₀ actions m := by
  obtain ⟨w, hw, h⟩ := bind_ok_iff.1 h
  refine ⟨_, ⟨w, ⟨signedAt 0, 1, 2, hw⟩, rfl⟩, Run.of_foldlM (fun _ _ _ step => ?_) h⟩
  exact execIf_ok_iff.1 step

def claimCycle (amount payout : ℤ) : List (Env 0 × Call ℕ) :=
  [(signedAt 0, .openClaim 5 5 .strategyLoss amount), (signedAt 0, .settle 1 5 payout),
    (signedAt 0, .closeClaim 1 5)]

/-- Two claims for the whole coverage of 100 are settled for 50 each. -/
theorem payouts_of_two_claims :
    ∃ m₀ m, SettledInitial 0 m₀ ∧
      Run (Guarded (SettlesWithin 5) (SettledStep 0 5)) m₀
        (insuredCalls ++ claimCycle 100 50 ++ claimCycle 100 50) m ∧
      m.payouts = [(2, 50), (1, 50)] ∧ PayoutsCapped 5 m := by
  obtain ⟨m, hm, payouts⟩ : ∃ m, settledRun (SettlesWithin 5) (insuredCalls ++ claimCycle 100 50 ++
      claimCycle 100 50) = .ok m ∧ m.payouts = [(2, 50), (1, 50)] := by
    decide +kernel
  obtain ⟨m₀, init, run⟩ := settledRun_run hm
  exact ⟨m₀, m, init, run, payouts, (payouts_within_coverage 5 init).2.1 run⟩

/-- Two claims of 100 each are paid by a policy that covers 100. -/
theorem payouts_exceed_coverage :
    ∃ m, Reachable (SettledInitial 0) (SettledStep 0 5) m ∧ ¬ PayoutsCapped 5 m := by
  obtain ⟨m, hm, coverage, hc, more⟩ : ∃ m, settledRun (fun _ _ => True) (insuredCalls ++
      [(signedAt 0, .fund 1 100)] ++ claimCycle 100 100 ++ claimCycle 100 100) = .ok m ∧
      ∃ coverage ∈ m.coverage 5, coverage < m.paid := by
    decide +kernel
  obtain ⟨m₀, init, run⟩ := settledRun_run hm
  have reach : Reachable (SettledInitial 0) (SettledStep 0 5) m :=
    ⟨m₀, _, init, run.mono fun _ _ _ h => h.2⟩
  exact ⟨m, reach, fun capped => absurd (capped.2 coverage hc) (not_le.2 more)⟩

end VaultInsurance
