import Perigee.VaultInsurance.Backing

/-!
# Premiums and the epochs they are charged for

A deposit charges the whole epochs since the ledger of the last withdrawal, and only a withdrawal
moves that ledger.  So a second deposit charges the same epochs again, and one within the first
epoch charges what has already accrued once more.  `ChargesOnce` excludes exactly these.
-/

namespace VaultInsurance

open Soroban

/-! ## Charges -/

/-- A charge for whole epochs, from the ledger `start` on. -/
structure Charge where
  start : ℕ
  epochs : ℕ
  deriving DecidableEq

/-- The ledger at which the last epoch of a charge ends. -/
def Charge.stop (charge : Charge) : ℕ := charge.start + charge.epochs * epochLedgers

/-- No epoch is charged twice: each charge starts after the epochs of all earlier ones.  The newest
charge comes first. -/
def InTurn (charges : List Charge) : Prop :=
  charges.Pairwise fun later earlier => earlier.stop ≤ later.start

instance (charges : List Charge) : Decidable (InTurn charges) :=
  inferInstanceAs (Decidable (List.Pairwise _ _))

theorem inTurn_cons_iff {charge : Charge} {charges : List Charge} :
    InTurn (charge :: charges) ↔
      (∀ earlier ∈ charges, earlier.stop ≤ charge.start) ∧ InTurn charges :=
  List.pairwise_cons

def epochsOf (charges : List Charge) : ℕ := (charges.map Charge.epochs).sum

theorem InTurn.epochsOf_le {charges : List Charge} {first last : ℕ} (inTurn : InTurn charges)
    (ordered : first ≤ last)
    (within : ∀ charge ∈ charges, first ≤ charge.start ∧ charge.stop ≤ last) :
    first + epochsOf charges * epochLedgers ≤ last := by
  induction charges generalizing last with
  | nil => simpa [epochsOf] using ordered
  | cons charge earlier ih =>
    obtain ⟨before, rest⟩ := inTurn_cons_iff.1 inTurn
    obtain ⟨after, stop⟩ := within charge List.mem_cons_self
    have fits := ih rest after fun c h => ⟨(within c (List.mem_cons_of_mem _ h)).1, before c h⟩
    have total : epochsOf (charge :: earlier) = charge.epochs + epochsOf earlier := rfl
    unfold Charge.stop at stop
    rw [total, add_mul]
    omega

section Contract

variable {Address : Type} [DecidableEq Address] {registry : Address} {env : Env registry}
  {w w' : World Address} {vault payer : Address} {amount : ℤ} {policy : Policy Address}

/-! ## The premium account of a policy -/

/-- What an account is charged at a ledger, as a list of at most one charge. -/
def Account.charge (account : Account) (sequence : ℕ) : List Charge :=
  if sequence - account.since < epochLedgers then []
  else [⟨account.since, (sequence - account.since) / epochLedgers⟩]

/-- A registry with the history of the premiums of one vault: the present ledger, the ledger at
which its policy was written, the premium collected from it and its charges, newest first. -/
structure Metered (Address : Type) where
  world : World Address
  now : ℕ := 0
  written : ℕ := 0
  collected : ℤ := 0
  charges : List Charge := []

def Metered.account (vault : Address) (m : Metered Address) : Option Account :=
  (m.world.policies.lookup vault).map Policy.account

def premiumPaid (vault : Address) (env : Env registry) (w : World Address) : Call Address → ℤ
  | .withdraw payer amount =>
      if payer = vault then (withdraw env payer amount w).toOption.elim 0 fun r => r.1.1 else 0
  | _ => 0

def epochsCharged (vault : Address) (env : Env registry) (m : Metered Address) :
    Call Address → List Charge
  | .deposit payer _ =>
      if payer = vault then (m.account vault).elim [] fun account => account.charge env.sequence
      else []
  | _ => []

def writtenAt (vault : Address) (env : Env registry) (m : Metered Address) : Call Address → ℕ
  | .write _ insured _ _ _ _ _ => if insured = vault then env.sequence else m.written
  | _ => m.written

def meteredExec (vault : Address) (env : Env registry) (m : Metered Address)
    (call : Call Address) : Outcome Error (Metered Address) := do
  let world ← exec env m.world call
  pure
    { world
      now := env.sequence
      written := writtenAt vault env m call
      collected := m.collected + premiumPaid vault env m.world call
      charges := epochsCharged vault env m call ++ m.charges }

def MeteredStep (registry vault : Address) (m : Metered Address)
    (action : Env registry × Call Address) (m' : Metered Address) : Prop :=
  m.now ≤ action.1.sequence ∧ meteredExec vault action.1 m action.2 = .ok m'

def MeteredInitial (registry : Address) (m : Metered Address) : Prop :=
  ∃ w, Initial registry w ∧ m = { world := w }

/-- The premium ever accrued is that of the epochs charged, none of them charged twice, and at most
that of the whole epochs since the policy was written. -/
def ChargedOnce (vault : Address) (m : Metered Address) : Prop :=
  ∀ account ∈ m.account vault,
    m.collected + account.accrued = account.perEpoch * epochsOf m.charges ∧ InTurn m.charges ∧
      m.collected + account.accrued ≤
        account.perEpoch * ((m.now - m.written) / epochLedgers : ℕ)

/-- A deposit of `vault` charges no epoch again: within the first epoch since the last withdrawal
nothing has accrued, and after it there was no charge since that withdrawal. -/
def ChargesOnce (vault : Address) (m : Metered Address) (action : Env registry × Call Address) :
    Prop :=
  match action.2 with
  | .deposit payer _ => payer = vault → ∀ account ∈ m.account vault,
      if action.1.sequence - account.since < epochLedgers then account.accrued = 0
      else ∀ charge ∈ m.charges, charge.start ≠ account.since
  | _ => True

instance (vault : Address) (m : Metered Address) :
    DecidablePred fun action : Env registry × Call Address => ChargesOnce vault m action
  | (env, .deposit payer _) => inferInstanceAs (Decidable (payer = vault → ∀ account ∈
      m.account vault, if env.sequence - account.since < epochLedgers then account.accrued = 0
        else ∀ charge ∈ m.charges, charge.start ≠ account.since))
  | (_, .write ..) | (_, .cancel ..) | (_, .withdraw ..) | (_, .fund ..) | (_, .openClaim ..)
  | (_, .settle ..) | (_, .closeClaim ..) => .isTrue trivial

variable {m m' : Metered Address} {account : Account} {action : Env registry × Call Address}

/-! ## Every step -/

/-- The charges of an account lie between the ledger at which its policy was written and the present
one, and those before the last withdrawal end before it. -/
structure Dated (m : Metered Address) (account : Account) : Prop where
  range : IsI128 account.accrued
  perEpoch : 0 ≤ account.perEpoch
  written : m.written ≤ account.since
  since : account.since ≤ m.now
  charges : ∀ charge ∈ m.charges, 0 < charge.epochs ∧ m.written ≤ charge.start ∧
    charge.stop ≤ m.now ∧ (charge.start = account.since ∨ charge.stop ≤ account.since)

structure Clocked (vault : Address) (m : Metered Address) : Prop where
  sound : Sound m.world
  unwritten : m.account vault = none → m.collected = 0 ∧ m.charges = []
  dated : ∀ account ∈ m.account vault, Dated m account

inductive Effect (vault : Address) (m m' : Metered Address) (cond : Prop) : Prop where
  | idle (same : m'.account vault = m.account vault) (written : m'.written = m.written)
      (collected : m'.collected = m.collected) (charges : m'.charges = m.charges) (free : cond)
  | write (perEpoch : ℤ) (nonneg : 0 ≤ perEpoch) (fresh : m.account vault = none)
      (account : m'.account vault = some ⟨perEpoch, 0, m'.now⟩) (written : m'.written = m'.now)
      (collected : m'.collected = m.collected) (charges : m'.charges = m.charges) (free : cond)
  | deposit (before : Account) (accrued : ℤ) (range : IsI128 accrued)
      (account : m.account vault = some before)
      (account' : m'.account vault = some { before with accrued })
      (sum : accrued = before.accrued + if m'.now - before.since < epochLedgers then before.accrued
        else before.perEpoch * ((m'.now - before.since) / epochLedgers : ℕ))
      (written : m'.written = m.written) (collected : m'.collected = m.collected)
      (charges : m'.charges = before.charge m'.now ++ m.charges)
      (free : cond ↔ if m'.now - before.since < epochLedgers then before.accrued = 0
        else ∀ charge ∈ m.charges, charge.start ≠ before.since)
  | withdraw (before : Account) (premium : ℤ) (paid : 0 ≤ premium)
      (left : 0 ≤ before.accrued - premium) (account : m.account vault = some before)
      (account' : m'.account vault = some ⟨before.perEpoch, before.accrued - premium, m'.now⟩)
      (written : m'.written = m.written) (collected : m'.collected = m.collected + premium)
      (charges : m'.charges = m.charges) (free : cond)

theorem account_save_self (h : m.world.policies = w.policies.set vault policy)
    (ha : policy.account = account) : m.account vault = some account := by
  rw [Metered.account, h, Store.lookup_set_self, Option.map_some, ha]

theorem account_save_of_ne (other : payer ≠ vault)
    (h : m'.world.policies = m.world.policies.set payer policy) :
    m'.account vault = m.account vault := by
  rw [Metered.account, h, Store.lookup_set_of_ne _ _ (Ne.symm other), Metered.account]

theorem account_of_lookup (h : m.world.policies.lookup vault = some policy) :
    m.account vault = some policy.account := by
  rw [Metered.account, h, Option.map_some]

theorem MeteredStep.effect (clocked : Clocked vault m)
    (step : MeteredStep registry vault m action m') :
    Effect vault m m' (ChargesOnce vault m action) := by
  obtain ⟨env, call⟩ := action
  obtain ⟨world, run, step⟩ := bind_ok_iff.1 step.2
  obtain rfl := pure_ok_iff.1 step
  cases call with
  | write _ insured =>
    simp only [exec, write, ok_iff, not_or, not_le, Bool.not_eq_true, Option.isSome_eq_false_iff,
      Option.isNone_iff_eq_none] at run
    obtain ⟨_, -, _, ⟨positive, value⟩, _, -, _, -, _, fresh, _, -, _, -, _, -, rfl⟩ := run
    by_cases own : insured = vault
    · subst own
      refine .write _ ?_ ?_ (account_save_self rfl rfl) (if_pos rfl) (add_zero _) rfl trivial
      · exact Policy.Valid.perEpoch_nonneg ⟨positive, value, le_rfl⟩
      · rw [Metered.account, fresh, Option.map_none]
    · exact .idle (account_save_of_ne own rfl) (if_neg own) (add_zero _) rfl trivial
  | cancel _ insured =>
    obtain ⟨_, policy, hp, -, -, rfl⟩ := cancel_ok run
    refine .idle ?_ rfl (add_zero _) rfl trivial
    by_cases own : insured = vault
    · subst own
      rw [account_of_lookup hp]
      exact account_save_self rfl rfl
    · exact account_save_of_ne own rfl
  | deposit payer amount =>
    change deposit env payer amount m.world = .ok world at run
    obtain ⟨policy, hp, accruedPremium, range, rfl, sum⟩ := deposit_ok run
    by_cases own : payer = vault
    · subst own
      have before := account_of_lookup hp
      refine .deposit policy.account accruedPremium range before
        (account_save_self rfl rfl) sum rfl (add_zero _) ?_ ?_
      · simp only [epochsCharged, if_true, before, Option.elim_some]
      · simp only [ChargesOnce, before, Option.mem_some_iff, forall_eq', forall_const]
    · refine .idle (account_save_of_ne own rfl) rfl (add_zero _) ?_ fun h => absurd h own
      simp only [epochsCharged, if_neg own, List.nil_append]
  | withdraw payer =>
    obtain ⟨r, run⟩ := map_snd_ok_iff.1 run
    obtain ⟨_, policy, _, hp, -, _, paid, -, -, -, after, rfl⟩ :=
      withdraw_ok clocked.sound run
    by_cases own : payer = vault
    · subst own
      have range := (clocked.dated _ (account_of_lookup hp)).range
      change IsI128 policy.accruedPremium at range
      have left : 0 ≤ policy.accruedPremium - r.1 := by omega
      have kept : IsI128 (policy.accruedPremium - r.1) := by
        unfold IsI128 at range ⊢
        omega
      rw [if_pos kept] at after
      refine .withdraw policy.account r.1 paid left (account_of_lookup hp)
        (account_save_self rfl after) rfl ?_ rfl trivial
      simp only [premiumPaid, if_true, run, Except.toOption, Option.elim_some]
    · refine .idle (account_save_of_ne own rfl) rfl ?_ rfl trivial
      simp only [premiumPaid, if_neg own, add_zero]
  | fund =>
    obtain ⟨_, -, -, rfl⟩ := fund_ok run
    exact .idle rfl rfl (add_zero _) rfl trivial
  | openClaim =>
    obtain ⟨_, _, -, -, -, -, -, rfl⟩ := openClaim_ok run
    exact .idle rfl rfl (add_zero _) rfl trivial
  | settle =>
    obtain ⟨_, _, -, -, -, -, rfl⟩ := settle_ok run
    exact .idle rfl rfl (add_zero _) rfl trivial
  | closeClaim =>
    simp only [exec, closeClaim, ok_iff] at run
    obtain ⟨_, -, rfl⟩ := run
    exact .idle rfl rfl (add_zero _) rfl trivial

theorem Clocked.of_dated (sound : Sound m.world) (h : m.account vault = some account)
    (dated : Dated m account) : Clocked vault m := by
  refine ⟨sound, ?_, ?_⟩ <;> rw [h]
  · exact fun none => nomatch none
  · exact fun _ same => Option.some.inj same ▸ dated

theorem Clocked.step (clocked : Clocked vault m) (step : MeteredStep registry vault m action m') :
    Clocked vault m' := by
  have effect := step.effect clocked
  obtain ⟨later, step⟩ := step
  obtain ⟨_, run, step⟩ := bind_ok_iff.1 step
  have sound : Sound m'.world := by
    obtain rfl := pure_ok_iff.1 step
    exact clocked.sound.step run
  have now : m.now ≤ m'.now := by
    obtain rfl := pure_ok_iff.1 step
    exact later
  cases effect with
  | idle same written collected charges =>
    refine ⟨sound, ?_, ?_⟩
    · rw [same, collected, charges]
      exact clocked.unwritten
    · intro account h
      have dated := clocked.dated account (same ▸ h)
      refine ⟨dated.range, dated.perEpoch, written ▸ dated.written, dated.since.trans now, ?_⟩
      rw [charges, written]
      intro charge hc
      obtain ⟨positive, after, before, turn⟩ := dated.charges charge hc
      exact ⟨positive, after, before.trans now, turn⟩
  | write _ nonneg fresh account written _ charges =>
    rw [(clocked.unwritten fresh).2] at charges
    refine .of_dated sound account ⟨⟨by norm_num, by norm_num⟩, nonneg, written.le, le_rfl, ?_⟩
    rw [charges]
    exact fun _ h => absurd h List.not_mem_nil
  | deposit before _ range account account' _ written _ charges =>
    have dated := clocked.dated before account
    refine .of_dated sound account'
      ⟨range, dated.perEpoch, written ▸ dated.written, dated.since.trans now, ?_⟩
    rw [charges, written]
    intro charge hc
    rcases List.mem_append.1 hc with new | old
    · unfold Account.charge at new
      split_ifs at new with short
      · exact absurd new List.not_mem_nil
      · obtain rfl := List.mem_singleton.1 new
        have whole : (m'.now - before.since) / epochLedgers * epochLedgers ≤
            m'.now - before.since := Nat.div_mul_le_self _ _
        have later := dated.since.trans now
        refine ⟨Nat.div_pos (not_lt.1 short) (by decide), dated.written, ?_, .inl rfl⟩
        unfold Charge.stop
        dsimp only
        omega
    · obtain ⟨positive, after, stop, turn⟩ := dated.charges charge old
      exact ⟨positive, after, stop.trans now, turn⟩
  | withdraw before _ _ _ account account' written _ charges =>
    have dated := clocked.dated before account
    have range := dated.range
    refine .of_dated sound account'
      ⟨?_, dated.perEpoch, written ▸ dated.written.trans (dated.since.trans now), le_rfl, ?_⟩
    · unfold IsI128 at range ⊢
      dsimp only
      omega
    · rw [charges, written]
      intro charge hc
      obtain ⟨positive, after, stop, turn⟩ := dated.charges charge hc
      exact ⟨positive, after, stop.trans now, .inr (stop.trans now)⟩

/-- The bound on the premium follows from the epochs being charged in turn. -/
theorem Clocked.chargedOnce_iff (clocked : Clocked vault m) (h : m.account vault = some account) :
    ChargedOnce vault m ↔
      m.collected + account.accrued = account.perEpoch * epochsOf m.charges ∧
        InTurn m.charges := by
  have dated := clocked.dated account h
  simp only [ChargedOnce, h, Option.mem_some_iff, forall_eq']
  refine and_congr_right fun sum => and_iff_left_of_imp fun inTurn => ?_
  have fits := inTurn.epochsOf_le (dated.written.trans dated.since) fun charge hc =>
    ⟨(dated.charges charge hc).2.1, (dated.charges charge hc).2.2.1⟩
  have whole : epochsOf m.charges ≤ (m.now - m.written) / epochLedgers := by
    rw [Nat.le_div_iff_mul_le (by decide)]
    omega
  rw [sum]
  exact mul_le_mul_of_nonneg_left (by exact_mod_cast whole) dated.perEpoch

/-- From a state where every epoch was charged at most once, a step leads to another exactly if it
charges no epoch again. -/
theorem chargedOnce_step_iff (clocked : Clocked vault m) (once : ChargedOnce vault m)
    (step : MeteredStep registry vault m action m') :
    ChargedOnce vault m' ↔ ChargesOnce vault m action := by
  have clocked' := clocked.step step
  cases step.effect clocked with
  | idle same _ collected charges free =>
    refine iff_of_true ?_ free
    intro account h
    have before : m.account vault = some account := same ▸ h
    refine (clocked'.chargedOnce_iff h).2 ?_ account h
    rw [collected, charges]
    exact (clocked.chargedOnce_iff before).1 once
  | write _ _ fresh account _ collected charges free =>
    obtain ⟨none, empty⟩ := clocked.unwritten fresh
    refine iff_of_true ?_ free
    rw [clocked'.chargedOnce_iff account, collected, charges, none, empty]
    exact ⟨(mul_zero _).symm, .nil⟩
  | deposit before _ _ account account' sum _ collected charges free =>
    have dated := clocked.dated before account
    obtain ⟨paid, inTurn⟩ := (clocked.chargedOnce_iff account).1 once
    rw [clocked'.chargedOnce_iff account', free, collected, charges, sum, Account.charge]
    split_ifs with short
    · rw [List.nil_append, ← paid, ← add_assoc, add_eq_left]
      exact and_iff_left inTurn
    · have total : m.collected + (before.accrued +
          before.perEpoch * ((m'.now - before.since) / epochLedgers : ℕ)) =
          before.perEpoch * epochsOf
            ([⟨before.since, (m'.now - before.since) / epochLedgers⟩] ++ m.charges) := by
        have more : epochsOf
            ([⟨before.since, (m'.now - before.since) / epochLedgers⟩] ++ m.charges) =
          (m'.now - before.since) / epochLedgers + epochsOf m.charges := rfl
        rw [more, ← add_assoc, paid, Nat.cast_add]
        ring
      rw [and_iff_right total, List.singleton_append, inTurn_cons_iff, and_iff_left inTurn]
      refine forall₂_congr fun charge hc => ?_
      obtain ⟨positive, -, -, turn⟩ := dated.charges charge hc
      have length : 0 < charge.epochs * epochLedgers := Nat.mul_pos positive (by decide)
      unfold Charge.stop at turn ⊢
      dsimp only
      omega
  | withdraw _ _ _ _ account account' _ collected charges free =>
    obtain ⟨sum, inTurn⟩ := (clocked.chargedOnce_iff account).1 once
    refine iff_of_true ?_ free
    rw [clocked'.chargedOnce_iff account', collected, charges]
    refine ⟨?_, inTurn⟩
    rw [← sum]
    ring

theorem metered_initial (init : MeteredInitial registry m) :
    Clocked vault m ∧ ChargedOnce vault m := by
  obtain ⟨w, init, rfl⟩ := init
  have sound := (initial_backed init).1
  obtain ⟨_, _, _, h⟩ := init
  simp only [initializeRegistry, ok_iff] at h
  obtain ⟨_, -, _, -, rfl⟩ := h
  refine ⟨⟨sound, fun _ => ⟨rfl, rfl⟩, ?_⟩, ?_⟩ <;> rintro _ ⟨⟩

/-- In a run whose deposits all charge no epoch again, the premium ever accrued by a vault is that
of the epochs charged, each charged once, and these are exactly the runs through such states. -/
theorem premiums_charged_once {m₀ m : Metered Address}
    {actions : List (Env registry × Call Address)} (vault : Address)
    (init : MeteredInitial registry m₀) :
    (Run (Guarded (ChargesOnce vault) (MeteredStep registry vault)) m₀ actions m →
        ChargedOnce vault m) ∧
      (Run (Guarded (ChargesOnce vault) (MeteredStep registry vault)) m₀ actions m ↔
        Run (Into (ChargedOnce vault) (MeteredStep registry vault)) m₀ actions m) :=
  Run.guarded_iff_into (Clocked vault) (metered_initial init)
    (fun _ _ _ clocked step => clocked.step step)
    fun _ _ _ clocked once step => chargedOnce_step_iff clocked once step

end Contract

/-! ## Charges made twice -/

def metered : Outcome Error (Metered ℕ) := do
  let w ← initializeRegistry (signedAt 0) 1 2 {}
  pure { world := w }

/-- Run calls from there, as long as the ledgers do not decrease and each call meets `cond`. -/
def meteredRun (cond : Metered ℕ → Env 0 × Call ℕ → Prop) [∀ m, DecidablePred (cond m)]
    (actions : List (Env 0 × Call ℕ)) : Outcome Error (Metered ℕ) := do
  let m ← metered
  actions.foldlM (execIf (fun m action => m.now ≤ action.1.sequence ∧ cond m action)
    fun m action => meteredExec 5 action.1 m action.2) m

theorem meteredRun_run {cond : Metered ℕ → Env 0 × Call ℕ → Prop} [∀ m, DecidablePred (cond m)]
    {actions : List (Env 0 × Call ℕ)} {m : Metered ℕ} (h : meteredRun cond actions = .ok m) :
    ∃ m₀, MeteredInitial 0 m₀ ∧ Run (Guarded cond (MeteredStep 0 5)) m₀ actions m := by
  obtain ⟨m₀, h₀, h⟩ := bind_ok_iff.1 h
  obtain ⟨w, hw, h₀⟩ := bind_ok_iff.1 h₀
  refine ⟨m₀, ⟨w, ⟨signedAt 0, 1, 2, hw⟩, (pure_ok_iff.1 h₀).symm⟩,
    Run.of_foldlM (fun m _ _ step => ?_) h⟩
  obtain ⟨⟨later, meets⟩, step⟩ := execIf_ok_iff.1 step
  exact ⟨meets, later, step⟩

/-- A policy is written at ledger 0; one epoch later its vault deposits and withdraws, and after
another epoch it deposits again. -/
theorem premiums_of_two_epochs :
    ∃ m₀ m actions, MeteredInitial 0 m₀ ∧
      Run (Guarded (ChargesOnce 5) (MeteredStep 0 5)) m₀ actions m ∧
      m.collected = 10000 ∧ m.charges = [⟨17280, 1⟩, ⟨0, 1⟩] ∧ ChargedOnce 5 m := by
  obtain ⟨m, hm, collected, charges⟩ : ∃ m, meteredRun (ChargesOnce 5) (insuredCalls ++
      [(signedAt 17280, .deposit 5 1), (signedAt 17280, .withdraw 5 20000),
        (signedAt 34560, .deposit 5 1)]) = .ok m ∧
      m.collected = 10000 ∧ m.charges = [⟨17280, 1⟩, ⟨0, 1⟩] := by
    decide +kernel
  obtain ⟨m₀, init, run⟩ := meteredRun_run hm
  exact ⟨m₀, m, _, init, run, collected, charges, (premiums_charged_once 5 init).1 run⟩

/-- Two deposits after the first epoch charge it twice: 20000 has accrued where one epoch costs
10000. -/
theorem deposits_charge_epoch_twice :
    ∃ m, Reachable (MeteredInitial 0) (MeteredStep 0 5) m ∧ ¬ ChargedOnce 5 m ∧
      ∃ account ∈ m.account 5, account.perEpoch * ((m.now - m.written) / epochLedgers : ℕ) <
        m.collected + account.accrued := by
  obtain ⟨m, hm, account, ha, more⟩ : ∃ m, meteredRun (fun _ _ => True) (insuredCalls ++
      [(signedAt 17280, .deposit 5 1), (signedAt 17280, .deposit 5 1)]) = .ok m ∧
      ∃ account ∈ m.account 5, account.perEpoch * ((m.now - m.written) / epochLedgers : ℕ) <
        m.collected + account.accrued := by
    decide +kernel
  obtain ⟨m₀, init, run⟩ := meteredRun_run hm
  refine ⟨m, ⟨m₀, _, init, run.mono fun _ _ _ h => h.2⟩, fun once => ?_, account, ha, more⟩
  exact absurd (once account ha).2.2 (not_le.2 more)

end VaultInsurance
