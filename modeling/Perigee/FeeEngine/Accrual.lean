import Perigee.FeeEngine.Effects

/-!
# Management fees by the second

Each accrual charges for the time since the last one, so the intervals charged should follow one
another from the first deposit on.  A deposit restarts the clock as well, without charging: the time
since the last accrual is lost unless the deposit comes in the same second.
-/

namespace FeeEngine

open Soroban

namespace Account

variable {terms : Terms} {a : Account} {event : Event}

/-- How many of the intervals charged contain a second. -/
def timesCharged (a : Account) (second : ℕ) : ℕ :=
  a.journal.intervals.countP fun i => i.1 ≤ second ∧ second < i.2

/-- At every time since the last accrual, each second since the first deposit is in exactly one of
the intervals charged and the interval still to be charged; other seconds are in none. -/
def ChargedOnce (a : Account) : Prop :=
  ∀ opened ∈ a.journal.opened, ∀ now second, a.vault.lastAccrual ≤ now →
    a.timesCharged second + (if a.vault.lastAccrual ≤ second ∧ second < now then 1 else 0) =
      if opened ≤ second ∧ second < now then 1 else 0

/-- A deposit into a vault that exists comes in the second of the last accrual. -/
def DepositAtAccrual (terms : Terms) (a : Account) : Event → Prop
  | .deposit _ => a.state.isSome → terms.now = a.vault.lastAccrual
  | _ => True

instance (terms : Terms) (a : Account) :
    (event : Event) → Decidable (DepositAtAccrual terms a event)
  | .deposit _ => inferInstanceAs (Decidable (_ → _))
  | .withdrawal _ => isTrue trivial
  | .accrual _ => isTrue trivial
  | .crystallization _ => isTrue trivial

/-- No time is dropped, and none is charged twice: deposits come in the second of the last accrual,
and accruals not before it. -/
def KeepsTime (terms : Terms) (a : Account) : Event → Prop
  | .deposit _ => a.state.isSome → terms.now = a.vault.lastAccrual
  | .accrual _ => a.vault.lastAccrual ≤ terms.now
  | _ => True

/-- A vault exists from its first deposit on, and nothing is charged before. -/
structure OpenedFirst (a : Account) : Prop where
  opened : a.state.isSome = a.journal.opened.isSome
  none_charged : a.journal.opened = none → a.journal.intervals = []

theorem OpenedFirst.next (applies : Applies terms a event) (h : OpenedFirst a) :
    OpenedFirst (a.next terms event) := by
  have existing (some : a.state.isSome) : a.journal.opened.isSome := h.opened ▸ some
  cases event with
  | deposit => exact ⟨rfl, fun none => nomatch none⟩
  | withdrawal => exact ⟨(existing applies.2).symm, h.none_charged⟩
  | accrual =>
    have opened := existing applies.1
    refine ⟨opened.symm, fun closed => ?_⟩
    change a.journal.opened = none at closed
    rw [closed] at opened
    cases opened
  | crystallization => exact ⟨(existing applies.1).symm, h.none_charged⟩

/-- In terms of the last accrual alone: the intervals charged partition the time up to it. -/
theorem chargedOnce_iff {opened : ℕ} (h : a.journal.opened = some opened) :
    ChargedOnce a ↔ opened ≤ a.vault.lastAccrual ∧ ∀ second, a.timesCharged second =
      if opened ≤ second ∧ second < a.vault.lastAccrual then 1 else 0 := by
  unfold ChargedOnce
  rw [h]
  constructor
  · intro once
    have after := once opened rfl (a.vault.lastAccrual + 1) a.vault.lastAccrual (Nat.le_succ _)
    refine ⟨?_, fun second => ?_⟩
    · split_ifs at after <;> omega
    · have upTo := once opened rfl a.vault.lastAccrual second le_rfl
      rw [if_neg (by omega)] at upTo
      exact upTo
  · rintro ⟨_, upTo⟩ _ ⟨⟩ _ second _
    rw [upTo]
    split_ifs <;> omega

theorem timesCharged_accrual (aum : ℤ) (second : ℕ) :
    (a.next terms (.accrual aum)).timesCharged second = a.timesCharged second +
      if a.vault.lastAccrual ≤ second ∧ second < terms.now then 1 else 0 := by
  simp [timesCharged, Journal.note, List.countP_cons]

theorem chargedOnce_deposit_iff {opened : ℕ} (amount : ℤ) (h : a.journal.opened = some opened)
    (once : ChargedOnce a) :
    ChargedOnce (a.next terms (.deposit amount)) ↔ terms.now = a.vault.lastAccrual := by
  have same : (a.next terms (.deposit amount)).journal.opened = some opened := by
    simp [Journal.note, h]
  obtain ⟨order, upTo⟩ := (chargedOnce_iff h).1 once
  rw [chargedOnce_iff same, vault_next, VaultState.lastAccrual_deposit]
  constructor
  · rintro ⟨_, upTo'⟩
    -- the earlier of the two times tells them apart
    have atNow := (upTo terms.now).symm.trans (upTo' terms.now)
    have atLast := (upTo a.vault.lastAccrual).symm.trans (upTo' a.vault.lastAccrual)
    split_ifs at atNow atLast <;> omega
  · intro now
    rw [now]
    exact ⟨order, upTo⟩

theorem chargedOnce_accrual_iff {opened : ℕ} (aum : ℤ) (h : a.journal.opened = some opened)
    (once : ChargedOnce a) :
    ChargedOnce (a.next terms (.accrual aum)) ↔ a.vault.lastAccrual ≤ terms.now := by
  have same : (a.next terms (.accrual aum)).journal.opened = some opened := h
  have clock : (a.next terms (.accrual aum)).vault.lastAccrual = terms.now := rfl
  obtain ⟨order, upTo⟩ := (chargedOnce_iff h).1 once
  rw [chargedOnce_iff same]
  simp only [timesCharged_accrual, upTo]
  constructor
  · rintro ⟨_, upTo'⟩
    have atNow := upTo' terms.now
    split_ifs at atNow <;> omega
  · intro later
    refine ⟨order.trans later, fun second => ?_⟩
    split_ifs <;> omega

/-- An event leaves every second charged once exactly if it keeps the time. -/
theorem chargedOnce_next_iff (applies : Applies terms a event) (inv : OpenedFirst a)
    (once : ChargedOnce a) : ChargedOnce (a.next terms event) ↔ KeepsTime terms a event := by
  cases event with
  | deposit amount =>
    cases opened : a.journal.opened with
    | none =>
      -- the first deposit starts the clock
      have missing : ¬ a.state.isSome := by simp [inv.opened, opened]
      have start : (a.next terms (.deposit amount)).journal.opened = some terms.now := by
        simp [Journal.note, opened]
      refine iff_of_true ((chargedOnce_iff start).2 ?_) fun h => absurd h missing
      rw [vault_next, VaultState.lastAccrual_deposit]
      refine ⟨le_rfl, fun _ => ?_⟩
      simp [timesCharged, Journal.note, inv.none_charged opened]
    | some =>
      have existing : a.state.isSome := by simp [inv.opened, opened]
      rw [chargedOnce_deposit_iff amount opened once]
      exact ⟨fun now _ => now, fun keeps => keeps existing⟩
  | withdrawal => exact iff_of_true once trivial
  | accrual aum =>
    have existing : a.journal.opened.isSome := inv.opened ▸ applies.1
    obtain ⟨start, opened⟩ := Option.isSome_iff_exists.1 existing
    exact chargedOnce_accrual_iff aum opened once
  | crystallization =>
    refine iff_of_true ?_ trivial
    unfold ChargedOnce
    rw [vault_next, VaultState.lastAccrual_crystallization]
    exact once

theorem lastAccrual_next_le {t : ℕ} (h : a.vault.lastAccrual ≤ t) (now : terms.now ≤ t) :
    (a.next terms event).vault.lastAccrual ≤ t := by
  rw [vault_next]
  cases event with
  | deposit =>
    exact now
  | withdrawal => exact h
  | accrual => exact now
  | crystallization =>
    rw [VaultState.lastAccrual_crystallization]
    exact h

end Account

/-! ## Runs of the engine -/

section Contract

variable {Address : Type} [DecidableEq Address] {engine v : Address} {s₀ s : Watched Address}
  {actions : List (Action engine)} {action : Action engine}

def ChargedOnce (v : Address) (s : Watched Address) : Prop :=
  (accountOf v s.world s.journal).ChargedOnce

def InOrder (actions : List (Action engine)) : Prop :=
  actions.Pairwise fun a b => a.env.timestamp ≤ b.env.timestamp

theorem lastAccrual_le {t : ℕ} (fresh : Fresh engine s₀)
    (run : Run (Watching engine v) s₀ actions s) (bound : ∀ a ∈ actions, a.env.timestamp ≤ t) :
    (accountOf v s.world s.journal).vault.lastAccrual ≤ t := by
  induction run with
  | nil =>
    rw [fresh.account]
    exact Nat.zero_le t
  | snoc _ last ih =>
    have before := ih fun a ha => bound a (List.mem_append_left _ ha)
    have now := bound _ (List.mem_append_right _ List.mem_cons_self)
    exact watching_keep (P := fun a => a.vault.lastAccrual ≤ t)
      (fun _ _ _ h => Account.lastAccrual_next_le h now) before last

/-- A step whose call is not before the last accrual leaves every second charged once exactly if its
deposit loses no time. -/
theorem chargedOnce_step_iff {s' : Watched Address}
    (inv : (accountOf v s.world s.journal).OpenedFirst) (once : ChargedOnce v s)
    (order : (accountOf v s.world s.journal).vault.lastAccrual ≤ action.env.timestamp)
    (step : Watching engine v s action s') :
    ChargedOnce v s' ↔ Meets v Account.DepositAtAccrual s action := by
  have same : Meets v Account.KeepsTime s action ↔ Meets v Account.DepositAtAccrual s action := by
    unfold Meets
    rcases action.call.events_cases v with none | ⟨event, one⟩ | ⟨_, two⟩
    · rw [none]
      exact Iff.rfl
    · rw [one]
      cases event with
      | accrual => exact iff_of_true ⟨order, trivial⟩ ⟨trivial, trivial⟩
      | deposit | withdrawal | crystallization => exact Iff.rfl
    · rw [two]
      exact iff_of_true ⟨order, trivial, trivial⟩ ⟨trivial, trivial, trivial⟩
  rw [← same]
  refine watching_exact (fun _ _ _ applies inv => inv.next applies)
    (fun _ _ _ applies inv once => Account.chargedOnce_next_iff applies inv once)
    (fun _ a _ inv once after => ?_) inv once step
  -- the crystallization after an accrual does not touch the clock
  unfold Account.ChargedOnce at after
  rw [Account.vault_next, VaultState.lastAccrual_crystallization] at after
  exact after

theorem Fresh.chargedOnce (fresh : Fresh engine s) (v : Address) :
    (accountOf v s.world s.journal).OpenedFirst ∧ ChargedOnce v s := by
  unfold ChargedOnce
  rw [fresh.account]
  exact ⟨⟨rfl, fun _ => rfl⟩, fun _ h => nomatch h⟩

omit [DecidableEq Address] in
theorem InOrder.last (order : InOrder (actions ++ [action])) :
    InOrder actions ∧ ∀ a ∈ actions, a.env.timestamp ≤ action.env.timestamp := by
  obtain ⟨before, -, last⟩ := List.pairwise_append.1 order
  exact ⟨before, fun a ha => last a ha action List.mem_cons_self⟩

theorem chargedOnce_of_guarded (fresh : Fresh engine s₀) (order : InOrder actions)
    (run : Run (Guarded (Meets v Account.DepositAtAccrual) (Watching engine v)) s₀ actions s) :
    Run (Into (ChargedOnce v) (Watching engine v)) s₀ actions s ∧
      (accountOf v s.world s.journal).OpenedFirst ∧ ChargedOnce v s := by
  induction run with
  | nil => exact ⟨.nil, fresh.chargedOnce v⟩
  | snoc before last ih =>
    obtain ⟨order, bound⟩ := order.last
    obtain ⟨run, inv, once⟩ := ih order
    have clock := lastAccrual_le fresh (before.mono fun _ _ _ step => step.2) bound
    have next := (chargedOnce_step_iff inv once clock last.2).2 last.1
    exact ⟨run.snoc ⟨last.2, next⟩, watching_keep (fun _ _ applies h => h.next applies) inv last.2,
      next⟩

theorem guarded_of_chargedOnce (fresh : Fresh engine s₀) (order : InOrder actions)
    (run : Run (Into (ChargedOnce v) (Watching engine v)) s₀ actions s) :
    Run (Guarded (Meets v Account.DepositAtAccrual) (Watching engine v)) s₀ actions s ∧
      (accountOf v s.world s.journal).OpenedFirst ∧ ChargedOnce v s := by
  induction run with
  | nil => exact ⟨.nil, fresh.chargedOnce v⟩
  | snoc before last ih =>
    obtain ⟨order, bound⟩ := order.last
    obtain ⟨run, inv, once⟩ := ih order
    have clock := lastAccrual_le fresh (before.mono fun _ _ _ step => step.1) bound
    have meets := (chargedOnce_step_iff inv once clock last.1).1 last.2
    exact ⟨run.snoc ⟨meets, last.1⟩, watching_keep (fun _ _ applies h => h.next applies) inv last.1,
      last.2⟩

/-- In a run with non-decreasing timestamps whose deposits all come in the second of the last
accrual, every second since the first deposit is charged exactly once; these are exactly the runs
through such states. -/
theorem chargedOnce_run_iff (fresh : Fresh engine s₀) (order : InOrder actions) :
    (Run (Guarded (Meets v Account.DepositAtAccrual) (Watching engine v)) s₀ actions s →
        ChargedOnce v s) ∧
      (Run (Guarded (Meets v Account.DepositAtAccrual) (Watching engine v)) s₀ actions s ↔
        Run (Into (ChargedOnce v) (Watching engine v)) s₀ actions s) :=
  ⟨fun run => (chargedOnce_of_guarded fresh order run).2.2,
    fun run => (chargedOnce_of_guarded fresh order run).1,
    fun run => (guarded_of_chargedOnce fresh order run).1⟩

end Contract

/-! ## Scenarios -/

/-- A deposit, an accrual after ten seconds, another deposit in the same second, and an accrual. -/
def accruedFirst : Outcome Error (Watched ℕ) :=
  scenario (fun s a => decide (Meets 5 Account.DepositAtAccrual s a))
    [⟨signedAt 100, .recordDeposit 5 1000, 0⟩, ⟨signedAt 110, .accrueManagementFee 5 1000, 0⟩,
      ⟨signedAt 110, .recordDeposit 5 1000, 0⟩, ⟨signedAt 120, .accrueManagementFee 5 2000, 0⟩]

theorem accruedFirst_chargedOnce : ∃ s, accruedFirst = .ok s ∧ ChargedOnce 5 s := by
  obtain ⟨s, h⟩ : ∃ s, accruedFirst = .ok s := by decide +kernel
  obtain ⟨_, fresh, run⟩ := scenario_run h
  exact ⟨s, h, (chargedOnce_run_iff fresh (by unfold InOrder; decide)).1
    (run.mono fun _ _ _ step => ⟨of_decide_eq_true step.1, step.2⟩)⟩

/-- A second deposit ten seconds after the first restarts the clock: these seconds are charged by no
accrual. -/
theorem deposit_drops_time :
    ∃ s₀ actions s, Fresh 0 s₀ ∧ InOrder actions ∧ Run (Watching 0 5) s₀ actions s ∧
      ¬ ChargedOnce 5 s := by
  obtain ⟨s, h, opened, clock, uncharged⟩ : ∃ s, scenario (fun _ _ => true)
      [⟨signedAt 100, .recordDeposit 5 1000, 0⟩, ⟨signedAt 110, .recordDeposit 5 1000, 0⟩] = .ok s ∧
      s.journal.opened = some 100 ∧ (accountOf 5 s.world s.journal).vault.lastAccrual = 110 ∧
      (accountOf 5 s.world s.journal).timesCharged 105 = 0 := by
    decide +kernel
  obtain ⟨s₀, fresh, run⟩ := scenario_run h
  refine ⟨s₀, _, s, fresh, by unfold InOrder; decide, run.mono fun _ _ _ step => step.2,
    fun once => ?_⟩
  have charged := ((Account.chargedOnce_iff opened).1 once).2 105
  rw [uncharged, clock] at charged
  exact absurd charged (by decide)

end FeeEngine
