import Perigee.TimelockedEscrow.Contract

/-!
# Who gets the deposit, when and why

The approvals are bits at positions of a list that can be replaced.  `Kept` ties them to the
history: the marked guardians are those that approved since the last deposit and the last rotation.
-/

namespace TimelockedEscrow

open Soroban

variable {Address : Type} {this : Address}

def EscrowConfig.Final (config : EscrowConfig Address) : Prop :=
  config.isReleased = true ∨ config.isCancelled = true

/-- What never changes after the initialization. -/
def EscrowConfig.terms (config : EscrowConfig Address) : Address × Address × Address × ℕ :=
  (config.depositor, config.beneficiary, config.token, config.unlockLedger)

/-! ## What a history says -/

def Action.isPayout : Action this → Bool
  | .call _ .release | .call _ .cancel => true
  | _ => false

variable (actions : List (Action this))

def deposited : ℤ :=
  actions.foldl (fun amount action => match action with
    | .call _ (.deposit deposit) => deposit
    | _ => amount) 0

/-- The guardians that authorized an approval since the last deposit and the last rotation. -/
def approvers : List Address :=
  actions.foldl (fun approved action => match action with
    | .call env (.approve guardian) => if env.auth guardian then guardian :: approved else approved
    | .call _ (.deposit _) | .call _ (.rotateGuardians _ _) => []
    | _ => approved) []

theorem countP_snoc (action : Action this) :
    (actions ++ [action]).countP Action.isPayout =
      actions.countP Action.isPayout + if action.isPayout then 1 else 0 := by
  rw [List.countP_append, List.countP_singleton]

/-! ## The invariant -/

/-- The state of the escrow follows from what was done to it. -/
structure Kept (actions : List (Action this)) (w : World Address) (config : EscrowConfig Address) :
    Prop where
  five : (readGuardians w).length = requiredGuardians
  distinct : (readGuardians w).Nodup
  marks : Roster.Marks (readApprovals w) (readGuardians w) (· ∈ approvers actions)
  members : ∀ g ∈ approvers actions, g ∈ readGuardians w
  active : ¬ config.Final → actions.countP Action.isPayout = 0 ∧
    config.amount = deposited actions ∧ 0 ≤ config.amount ∧
    (config.amount = 0 → approvers actions = [])
  final : config.Final → actions.countP Action.isPayout = 1

/-- Nothing has happened before the initialization; after it the state is kept. -/
inductive Tracked (actions : List (Action this)) (w : World Address) : Prop
  | blank (empty : w.config = none) (unpaid : actions.countP Action.isPayout = 0)
      (nothing : deposited actions = 0) (nobody : approvers actions = [])
  | kept {config : EscrowConfig Address} (stored : w.config = some config)
      (kept : Kept actions w config)

variable {actions : List (Action this)} {action : Action this} {w w' : World Address}
  {config : EscrowConfig Address}

theorem Tracked.of_config (tracked : Tracked actions w) (stored : w.config = some config) :
    Kept actions w config := by
  cases tracked with
  | blank empty => simp [empty] at stored
  | kept stored' kept =>
    obtain rfl := Option.mem_unique stored' stored
    exact kept

/-- An action that approves nothing and resets nothing leaves the guardians and approvals alone. -/
theorem Kept.frame (kept : Kept actions w config) {config' : EscrowConfig Address}
    (guardians : w'.guardians = w.guardians) (approvals : w'.approvals = w.approvals)
    (same : approvers (actions ++ [action]) = approvers actions)
    (active : ¬ config'.Final → (actions ++ [action]).countP Action.isPayout = 0 ∧
      config'.amount = deposited (actions ++ [action]) ∧ 0 ≤ config'.amount ∧
      (config'.amount = 0 → approvers (actions ++ [action]) = []))
    (final : config'.Final → (actions ++ [action]).countP Action.isPayout = 1) :
    Kept (actions ++ [action]) w' config' := by
  have list : readGuardians w' = readGuardians w := by rw [readGuardians, guardians]; rfl
  have bits : readApprovals w' = readApprovals w := by rw [readApprovals, approvals]; rfl
  refine ⟨?_, ?_, ?_, ?_, active, final⟩
  · rw [list]
    exact kept.five
  · rw [list]
    exact kept.distinct
  · rw [list, bits, same]
    exact kept.marks
  · rw [list, same]
    exact kept.members

theorem Kept.nobody (kept : Kept actions w config) (none : readApprovals w = 0) :
    approvers actions = [] := by
  refine List.eq_nil_iff_forall_not_mem.2 fun g approved => ?_
  have marks := kept.marks
  rw [none] at marks
  exact marks.not_of_zero (kept.members g approved) approved

/-! ## What a call does -/

variable [DecidableEq Address] {env : Env this} {call : Call Address} {u : Unit}
  {guardians : List Address}

theorem validateGuardians_ok (h : validateGuardians guardians = .ok u) :
    guardians.length = requiredGuardians ∧ guardians.Nodup := by
  simp only [validateGuardians, ok_iff, not_not] at h
  obtain ⟨_, five, distinct⟩ := h
  exact ⟨five, distinct⟩

theorem guardianIndex_ok {addr : Address} {i : ℕ} (h : guardianIndex guardians addr = .ok i) :
    guardians[i]? = some addr := by
  obtain ⟨below, same, -⟩ := List.findIdx?_eq_some_iff_getElem.1 (okOr_ok_iff.1 h)
  rw [List.getElem?_eq_getElem below, of_decide_eq_true same]

inductive Effect (env : Env this) (w : World Address) : Call Address → World Address → Prop
  | initializeEscrow {depositor beneficiary token : Address} {guardians : List Address}
      {lockLedgers : ℕ} (fresh : w.config = none) (five : guardians.length = requiredGuardians)
      (distinct : guardians.Nodup) :
      Effect env w (.initializeEscrow depositor beneficiary token guardians lockLedgers) { w with
        config := some ⟨depositor, beneficiary, token, 0,
          min (env.sequence + lockLedgers) (2 ^ 32 - 1), false, false⟩
        guardians := some guardians
        approvals := some 0
        approvalEpoch := some 0 }
  | deposit {amount : ℤ} {config : EscrowConfig Address} {tokens : Tokens Address}
      (stored : w.config = some config) (active : ¬ config.Final) (unfunded : config.amount ≤ 0)
      (auth : env.auth config.depositor = true)
      (moved : (w.tokens.transfer config.token config.depositor this amount : Result _) =
        .ok tokens) :
      Effect env w (.deposit amount) { w with tokens, config := some { config with amount } }
  | approve {guardian : Address} {config : EscrowConfig Address} {i : ℕ}
      (stored : w.config = some config) (active : ¬ config.Final) (funded : config.amount ≠ 0)
      (auth : env.auth guardian = true) (member : (readGuardians w)[i]? = some guardian) :
      Effect env w (.approve guardian)
        { w with approvals := some (readApprovals w ||| 1#32 <<< i) }
  | release {config : EscrowConfig Address} {tokens : Tokens Address}
      (stored : w.config = some config) (active : ¬ config.Final) (funded : config.amount ≠ 0)
      (unlocked : config.unlockLedger ≤ env.sequence)
      (quorum : requiredApprovals ≤ approvalCount (readApprovals w))
      (moved : (w.tokens.transfer config.token this config.beneficiary config.amount : Result _) =
        .ok tokens) :
      Effect env w .release
        { w with tokens, config := some { config with amount := 0, isReleased := true } }
  | cancel {config : EscrowConfig Address} {tokens : Tokens Address}
      (stored : w.config = some config) (active : ¬ config.Final) (funded : config.amount ≠ 0)
      (auth : env.auth config.depositor = true)
      (untouched : config.unlockLedger ≤ env.sequence → readApprovals w = 0)
      (moved : (w.tokens.transfer config.token this config.depositor config.amount : Result _) =
        .ok tokens) :
      Effect env w .cancel
        { w with tokens, config := some { config with amount := 0, isCancelled := true } }
  | rotateGuardians {newGuardians approvingGuardians : List Address}
      {config : EscrowConfig Address} {epoch : ℕ} (stored : w.config = some config)
      (active : ¬ config.Final) (five : newGuardians.length = requiredGuardians)
      (distinct : newGuardians.Nodup) :
      Effect env w (.rotateGuardians newGuardians approvingGuardians) { w with
        guardians := some newGuardians
        approvals := some 0
        approvalEpoch := some epoch }

theorem exec_effect (h : exec env w call = .ok w') : Effect env w call w' := by
  cases call <;>
    simp only [exec, initializeEscrow, deposit, approve, release, cancel, rotateGuardians,
      readConfig, setApproval, hasQuorum, map_snd_ok_iff, ok_iff, requireActive, requireFunded,
      requireAuth_ok_iff, not_and, not_lt, not_le, Nat.le_zero, decide_eq_false_iff_not] at h
  case initializeEscrow =>
    obtain ⟨_, fresh, _, valid, rfl⟩ := h
    obtain ⟨five, distinct⟩ := validateGuardians_ok valid
    exact .initializeEscrow (by simpa using fresh) five distinct
  case deposit =>
    obtain ⟨config, stored, _, active, _, unfunded, _, auth, tokens, moved, rfl⟩ := h
    exact .deposit stored active unfunded auth moved
  case approve =>
    obtain ⟨_, config, stored, _, active, _, funded, _, auth, i, found, _, ⟨_, -, rfl⟩, -, rfl⟩ := h
    exact .approve stored active funded auth (guardianIndex_ok found)
  case release =>
    obtain ⟨config, stored, _, active, _, funded, _, unlocked, _, quorum, tokens, moved, rfl⟩ := h
    exact .release stored active funded unlocked quorum moved
  case cancel =>
    obtain ⟨config, stored, _, active, _, funded, _, auth, _, none, tokens, moved, rfl⟩ := h
    exact .cancel stored active funded auth
      (fun unlocked => Roster.countOnes_eq_zero_iff.1 (none unlocked)) moved
  case rotateGuardians =>
    obtain ⟨config, stored, _, active, _, valid, _, -, _, -, _, -, rfl⟩ := h
    obtain ⟨five, distinct⟩ := validateGuardians_ok valid
    exact .rotateGuardians stored active five distinct

/-! ## Runs keep the invariant -/

theorem Tracked.step (tracked : Tracked actions w) (step : Step w action w') :
    Tracked (actions ++ [action]) w' := by
  have approved : approvers (actions ++ [action]) = _ := List.foldl_append ..
  have amount : deposited (actions ++ [action]) = _ := List.foldl_append ..
  have count := countP_snoc actions action
  cases action with
  | others =>
    obtain ⟨-, rfl⟩ := step
    cases tracked with
    | blank empty unpaid nothing nobody =>
      exact .blank empty (count.trans unpaid) (amount.trans nothing) (approved.trans nobody)
    | kept stored kept =>
      refine .kept stored (kept.frame rfl rfl approved ?_ fun final => ?_)
      · intro active
        rw [count, amount, approved]
        exact kept.active active
      · rw [count]
        exact kept.final final
  | call =>
    cases exec_effect step with
    | initializeEscrow fresh five distinct =>
      cases tracked with
      | kept stored => simp [fresh] at stored
      | blank _ unpaid nothing nobody =>
        have nobody := approved.trans nobody
        refine .kept rfl ⟨five, distinct, ?_, ?_, fun _ => ⟨count.trans unpaid,
          (amount.trans nothing).symm, le_rfl, fun _ => nobody⟩, ?_⟩
        · exact (Roster.Marks.zero _).congr fun g => by simp [nobody]
        · simp [nobody]
        · rintro (h | h) <;> cases h
    | deposit stored active unfunded _ moved =>
      have kept := tracked.of_config stored
      obtain ⟨unpaid, -, nonneg, nobody⟩ := kept.active active
      have empty : approvers actions = [] := nobody (le_antisymm unfunded nonneg)
      exact .kept rfl (kept.frame rfl rfl (approved.trans empty.symm)
        (fun _ => ⟨count.trans unpaid, amount.symm, (Tokens.transfer_ok_iff.1 moved).1,
          fun _ => approved⟩)
        fun final => absurd final active)
    | approve stored active funded auth member =>
      have kept := tracked.of_config stored
      obtain ⟨unpaid, same, nonneg, -⟩ := kept.active active
      have approved : _ = _ :: approvers actions := approved.trans (if_pos auth)
      have below := (List.getElem?_eq_some_iff.1 member).1
      rw [kept.five, requiredGuardians] at below
      refine .kept stored ⟨kept.five, kept.distinct, ?_, ?_, fun _ => ⟨count.trans unpaid,
        same.trans amount.symm, nonneg, fun none => absurd none funded⟩,
        fun final => absurd final active⟩
      · exact (kept.marks.set kept.distinct member (by omega)).congr fun g => by
          rw [approved, List.mem_cons]
      · rw [approved]
        exact List.forall_mem_cons.2 ⟨List.mem_of_getElem? member, kept.members⟩
    | release stored active =>
      have kept := tracked.of_config stored
      refine .kept rfl (kept.frame rfl rfl approved (fun h => absurd (.inl rfl) h) fun _ => ?_)
      rw [count, (kept.active active).1]
      rfl
    | cancel stored active =>
      have kept := tracked.of_config stored
      refine .kept rfl (kept.frame rfl rfl approved (fun h => absurd (.inr rfl) h) fun _ => ?_)
      rw [count, (kept.active active).1]
      rfl
    | rotateGuardians stored active five distinct =>
      obtain ⟨unpaid, same, nonneg, -⟩ := (tracked.of_config stored).active active
      refine .kept stored ⟨five, distinct, ?_, ?_, fun _ => ⟨count.trans unpaid,
        same.trans amount.symm, nonneg, fun _ => approved⟩, fun final => absurd final active⟩
      · exact (Roster.Marks.zero _).congr fun g => by simp [approved]
      · simp [approved]

theorem tracked_of_run {w₀ : World Address} (start : w₀.config = none)
    (run : Run Step w₀ actions w) : Tracked actions w := by
  induction run with
  | nil => exact .blank start rfl rfl rfl
  | snoc _ last ih => exact ih.step last

/-! ## Payouts -/

theorem Kept.quorum (kept : Kept actions w config)
    (quorum : requiredApprovals ≤ approvalCount (readApprovals w)) :
    ∃ three : Finset Address, three.card = 3 ∧
      ∀ g ∈ three, g ∈ readGuardians w ∧ g ∈ approvers actions := by
  obtain ⟨three, sub, card⟩ := Finset.le_card_iff_exists_subset_card.1
    (quorum.trans (kept.marks.count_le kept.distinct))
  refine ⟨three, card, fun g mem => ?_⟩
  obtain ⟨member, approved⟩ := Finset.mem_filter.1 (sub mem)
  exact ⟨List.mem_toFinset.1 member, approved⟩

theorem terms_step (step : Step w action w') (stored : w.config = some config) :
    ∃ config', w'.config = some config' ∧ config'.terms = config.terms := by
  cases action with
  | others =>
    obtain ⟨-, rfl⟩ := step
    exact ⟨config, stored, rfl⟩
  | call =>
    cases exec_effect step with
    | initializeEscrow fresh => simp [fresh] at stored
    | deposit stored' =>
      obtain rfl := Option.mem_unique stored stored'
      exact ⟨_, rfl, rfl⟩
    | approve => exact ⟨_, stored, rfl⟩
    | release stored' | cancel stored' =>
      obtain rfl := Option.mem_unique stored stored'
      exact ⟨_, rfl, rfl⟩
    | rotateGuardians => exact ⟨_, stored, rfl⟩

theorem isPayout_of_taken (step : Step w action w') {token : Address}
    (taken : w'.tokens token this < w.tokens token this) : action.isPayout = true := by
  cases action with
  | others =>
    obtain ⟨kept, rfl⟩ := step
    exact absurd taken (not_lt.2 (kept token))
  | call =>
    cases exec_effect step with
    | initializeEscrow => exact absurd taken (lt_irrefl _)
    | deposit _ _ _ auth moved =>
      have nonneg := (Tokens.transfer_ok_iff.1 moved).1
      have change := Tokens.transfer_apply moved token this
      have other := Env.ne_this auth
      dsimp only at taken
      rw [change, if_neg fun h => other h.2.symm] at taken
      split_ifs at taken <;> omega
    | approve => exact absurd taken (lt_irrefl _)
    | release | cancel => rfl
    | rotateGuardians => exact absurd taken (lt_irrefl _)

/-- After any run: there are five distinct guardians, there was at most one payout, and the next
action takes tokens from the escrow only as a payout.  A release is at or after the unlock ledger,
moves what was deposited to the beneficiary, and three distinct guardians have approved it since the
deposit and the last rotation.  A cancellation is authorized by the depositor, moves what was
deposited back, and at or after the unlock ledger nobody has approved. -/
theorem payout_earned {w₀ : World Address} (start : w₀.config = none)
    (run : Run Step w₀ actions w) :
    (w.config.isSome = true → (readGuardians w).length = 5 ∧ (readGuardians w).Nodup) ∧
      actions.countP Action.isPayout ≤ 1 ∧
      ∀ (action : Action this) (w' : World Address), Step w action w' →
        (∀ token, w'.tokens token this < w.tokens token this → action.isPayout = true) ∧
        (∀ config, w.config = some config →
          ∃ config', w'.config = some config' ∧ config'.terms = config.terms) ∧
        (∀ env, action = .call env .release → ∃ config, w.config = some config ∧
          config.unlockLedger ≤ env.sequence ∧ 0 < deposited actions ∧
          (w.tokens.transfer config.token this config.beneficiary (deposited actions) :
            Result _) = .ok w'.tokens ∧
          ∃ three : Finset Address, three.card = 3 ∧
            ∀ g ∈ three, g ∈ readGuardians w ∧ g ∈ approvers actions) ∧
        (∀ env, action = .call env .cancel → ∃ config, w.config = some config ∧
          env.auth config.depositor = true ∧ 0 < deposited actions ∧
          (w.tokens.transfer config.token this config.depositor (deposited actions) :
            Result _) = .ok w'.tokens ∧
          (config.unlockLedger ≤ env.sequence → approvers actions = [])) := by
  have tracked := tracked_of_run start run
  refine ⟨?_, ?_, fun action w' step => ⟨fun token => isPayout_of_taken step,
    fun config => terms_step step, ?_, ?_⟩⟩
  · intro initialized
    obtain ⟨config, stored⟩ := Option.isSome_iff_exists.1 initialized
    have kept := tracked.of_config stored
    exact ⟨kept.five, kept.distinct⟩
  · cases tracked with
    | blank _ unpaid => exact unpaid.le.trans zero_le_one
    | @kept config _ kept =>
      by_cases final : config.Final
      · exact (kept.final final).le
      · exact (kept.active final).1.le.trans zero_le_one
  · rintro env rfl
    cases exec_effect step with
    | @release config _ stored active funded unlocked quorum moved =>
      have kept := tracked.of_config stored
      obtain ⟨-, amount, nonneg, -⟩ := kept.active active
      rw [amount] at funded nonneg moved
      exact ⟨config, stored, unlocked, lt_of_le_of_ne nonneg funded.symm, moved,
        kept.quorum quorum⟩
  · rintro env rfl
    cases exec_effect step with
    | @cancel config _ stored active funded auth untouched moved =>
      have kept := tracked.of_config stored
      obtain ⟨-, amount, nonneg, -⟩ := kept.active active
      rw [amount] at funded nonneg moved
      exact ⟨config, stored, auth, lt_of_le_of_ne nonneg funded.symm, moved,
        fun unlocked => kept.nobody (untouched unlocked)⟩

def signed (ledger : ℕ) (call : Call ℕ) : Action 7 := .call ⟨ledger, fun a => a ≠ 7, rfl⟩ call

def perform (w : World ℕ) : Action 7 → Result (World ℕ)
  | .call env call => exec env w call
  | .others _ => .error .trap

theorem perform_step {w w' : World ℕ} {action : Action 7} (done : perform w action = .ok w') :
    Step w action w' := by
  cases action with
  | call => exact done
  | others => cases done

def funded : World ℕ := { tokens := fun token holder => if token = 9 ∧ holder = 0 then 100 else 0 }

/-- The guardians are replaced, and three of the new ones approve. -/
def approvedByThree : List (Action 7) :=
  [signed 1 (.initializeEscrow 0 1 9 [2, 3, 4, 5, 6] 10), signed 2 (.deposit 100),
    signed 3 (.approve 2), signed 4 (.rotateGuardians [10, 11, 12, 13, 14] [2, 3, 4]),
    signed 5 (.approve 10), signed 6 (.approve 12), signed 7 (.approve 14)]

theorem approvedByThree_released :
    ∃ w w' : World ℕ, Run Step funded approvedByThree w ∧ Step w (signed 11 .release) w' ∧
      (readGuardians w).length = 5 ∧ deposited approvedByThree = 100 ∧ w'.tokens 9 1 = 100 ∧
      ∃ three : Finset ℕ, three.card = 3 ∧
        ∀ g ∈ three, g ∈ readGuardians w ∧ g ∈ approvers approvedByThree := by
  obtain ⟨w, first, w', last, some, paid⟩ : ∃ w, approvedByThree.foldlM perform funded = .ok w ∧
      ∃ w', perform w (signed 11 .release) = .ok w' ∧ w.config.isSome = true ∧
        w'.tokens 9 1 = 100 := by
    decide +kernel
  have run := Run.of_foldlM (fun _ _ _ => perform_step) first
  obtain ⟨five, -, next⟩ := payout_earned rfl run
  obtain ⟨-, -, released, -⟩ := next (signed 11 .release) w' last
  obtain ⟨_, -, -, -, -, three⟩ := released _ rfl
  exact ⟨w, w', run, last, (five some).1, rfl, paid, three⟩

end TimelockedEscrow
