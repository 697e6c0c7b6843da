import Perigee.BatchTransfer.Contract

/-!
# Chunks against one batch

Two batches one after the other are one batch if the second plan starts from the balance that the
first one left over (`paid_append`).  An all-or-nothing chunk that passes is not taken back when a
later one fails, and what a sender pays to itself is spent in the plan but not in the balance that
the next chunk reads.
-/

namespace BatchTransfer

open Soroban

variable {Address : Type}

/-! ## Plans -/

section Plans

variable {mode : ExecutionMode} {r r' : ℤ} {entry : Address × ℤ}
  {pairs xs ys rest : List (Address × ℤ)} {plan : List (TransferResult Address)}

def Passes (mode : ExecutionMode) (r : ℤ) (pairs : List (Address × ℤ)) : Prop :=
  ∃ plan, planFrom mode r pairs = .ok plan

def planned (r : ℤ) (entry : Address × ℤ) : TransferResult Address :=
  if entry.2 ≤ 0 then ⟨entry.1, entry.2, false, .invalidAmount⟩
  else if r < entry.2 then ⟨entry.1, entry.2, false, .insufficientBalance⟩
  else ⟨entry.1, entry.2, true, .none⟩

def cost (item : TransferResult Address) : ℤ := if item.success then item.amount else 0

def spent (plan : List (TransferResult Address)) : ℤ := (plan.map cost).sum

@[simp] theorem spent_cons (item : TransferResult Address) (plan : List (TransferResult Address)) :
    spent (item :: plan) = cost item + spent plan := by
  simp [spent]

theorem planned_cases (r : ℤ) (entry : Address × ℤ) :
    (0 < entry.2 ∧ entry.2 ≤ r ∧ planned r entry = ⟨entry.1, entry.2, true, .none⟩) ∨
      (¬ (0 < entry.2 ∧ entry.2 ≤ r) ∧ (planned r entry).success = false) := by
  unfold planned
  split_ifs with bad short
  · exact .inr ⟨by omega, rfl⟩
  · exact .inr ⟨by omega, rfl⟩
  · exact .inl ⟨by omega, by omega, rfl⟩

theorem planFrom_cons_ok_iff : planFrom mode r (entry :: rest) = .ok plan ↔
    (mode = .allOrNothing → (planned r entry).success = true) ∧
      ∃ tail, planFrom mode (r - cost (planned r entry)) rest = .ok tail ∧
        planned r entry :: tail = plan := by
  rw [planFrom, planned]
  cases mode <;> split_ifs <;> simp_all [cost, map_ok_iff]

theorem planFrom_append_ok_iff : planFrom mode r (xs ++ ys) = .ok plan ↔
    ∃ p q, planFrom mode r xs = .ok p ∧ planFrom mode (r - spent p) ys = .ok q ∧
      plan = p ++ q := by
  induction xs generalizing r plan with
  | nil => simp [planFrom, pure_ok_iff, spent]
  | cons _ _ ih =>
    simp only [List.cons_append, planFrom_cons_ok_iff, ih]
    constructor
    · rintro ⟨strict, _, ⟨p, q, first, second, rfl⟩, rfl⟩
      exact ⟨_, q, ⟨strict, p, first, rfl⟩, by rwa [spent_cons, ← sub_sub], rfl⟩
    · rintro ⟨_, q, ⟨strict, p, first, rfl⟩, second, rfl⟩
      exact ⟨strict, _, ⟨p, q, first, by rwa [spent_cons, ← sub_sub] at second, rfl⟩, rfl⟩

theorem passes_partial (r : ℤ) (pairs : List (Address × ℤ)) : Passes .partialMode r pairs := by
  induction pairs generalizing r with
  | nil => exact ⟨[], rfl⟩
  | cons entry _ ih =>
    obtain ⟨tail, plans⟩ := ih (r - cost (planned r entry))
    exact ⟨_, planFrom_cons_ok_iff.2 ⟨nofun, tail, plans, rfl⟩⟩

theorem Passes.of_append (passes : Passes mode r (xs ++ ys)) : Passes mode r xs := by
  obtain ⟨_, plans⟩ := passes
  obtain ⟨p, q, first, -, -⟩ := planFrom_append_ok_iff.1 plans
  exact ⟨p, first⟩

/-- An all-or-nothing batch that passes pays everybody, also from a larger balance. -/
theorem planFrom_strict (plans : planFrom .allOrNothing r pairs = .ok plan) (le : r ≤ r') :
    planFrom .allOrNothing r' pairs = .ok plan ∧
      plan = pairs.map fun entry => ⟨entry.1, entry.2, true, .none⟩ := by
  induction pairs generalizing r r' plan with
  | nil => exact ⟨plans, (pure_ok_iff.1 plans).symm⟩
  | cons entry _ ih =>
    obtain ⟨strict, tail, later, rfl⟩ := planFrom_cons_ok_iff.1 plans
    rcases planned_cases r entry with ⟨good, enough, here⟩ | ⟨-, skipped⟩
    · have there : planned r' entry = planned r entry := by
        rw [here, planned, if_neg (not_le.2 good), if_neg (not_lt.2 (enough.trans le))]
      have next : r - cost (planned r entry) ≤ r' - cost (planned r' entry) := by
        rw [there]
        omega
      obtain ⟨again, all⟩ := ih later next
      rw [List.map_cons, ← all, ← here]
      exact ⟨planFrom_cons_ok_iff.2 ⟨there ▸ strict, tail, again, there ▸ rfl⟩, rfl⟩
    · rw [strict rfl] at skipped
      cases skipped

@[simp] theorem planned_recipient (r : ℤ) (entry : Address × ℤ) :
    (planned r entry).recipient = entry.1 := by
  unfold planned
  split_ifs <;> rfl

theorem spent_append (p q : List (TransferResult Address)) :
    spent (p ++ q) = spent p + spent q := by
  simp [spent]

variable [DecidableEq Address] {sender : Address}

/-- What a plan pays to others than the sender. -/
def given (sender : Address) (plan : List (TransferResult Address)) : ℤ :=
  (plan.map fun item => if item.recipient = sender then 0 else cost item).sum

@[simp] theorem given_cons (item : TransferResult Address) (plan : List (TransferResult Address)) :
    given sender (item :: plan) =
      (if item.recipient = sender then 0 else cost item) + given sender plan := by
  simp [given]

theorem given_append (p q : List (TransferResult Address)) :
    given sender (p ++ q) = given sender p + given sender q := by
  simp [given]

theorem planFrom_bounds (sender : Address) (plans : planFrom mode r pairs = .ok plan) :
    0 ≤ given sender plan ∧ given sender plan ≤ spent plan ∧ spent plan ≤ max r 0 := by
  induction pairs generalizing r plan with
  | nil =>
    obtain rfl := pure_ok_iff.1 plans
    simp [given, spent]
  | cons entry _ ih =>
    obtain ⟨-, _, later, rfl⟩ := planFrom_cons_ok_iff.1 plans
    obtain ⟨nonneg, le, bound⟩ := ih later
    rw [given_cons, spent_cons]
    have costs : 0 ≤ cost (planned r entry) ∧ cost (planned r entry) ≤ max r 0 := by
      rcases planned_cases r entry with ⟨good, enough, here⟩ | ⟨-, skipped⟩
      · simp only [here, cost, if_true]
        omega
      · simp [cost, skipped]
    split_ifs <;> omega

theorem given_pos (plans : planFrom .allOrNothing r pairs = .ok plan) (mem : entry ∈ pairs)
    (other : entry.1 ≠ sender) : 0 < given sender plan := by
  induction pairs generalizing r plan with
  | nil => cases mem
  | cons first _ ih =>
    obtain ⟨strict, _, later, rfl⟩ := planFrom_cons_ok_iff.1 plans
    have nonneg := (planFrom_bounds sender later).1
    rcases planned_cases r first with ⟨good, -, here⟩ | ⟨-, skipped⟩
    · rw [given_cons, here]
      simp only [cost, if_true]
      rcases List.mem_cons.1 mem with rfl | mem
      · rw [if_neg other]
        omega
      · have := ih later mem
        split_ifs <;> omega
    · rw [strict rfl] at skipped
      cases skipped

/-- If a larger balance changes a lenient plan, and not in refusing the sender what it would pay to
itself, then the larger balance pays more to others than the smaller one can ever pay. -/
theorem given_lt_of_ne {q q' : List (TransferResult Address)} (le : r ≤ r')
    (plans : planFrom .partialMode r pairs = .ok q)
    (plans' : planFrom .partialMode r' pairs = .ok q')
    (covered : ∀ item ∈ q, item.recipient = sender → item.failure ≠ .insufficientBalance)
    (differ : q ≠ q') : given sender q + max (r - spent q) 0 < given sender q' := by
  induction pairs generalizing r r' q q' with
  | nil => exact absurd ((pure_ok_iff.1 plans).symm.trans (pure_ok_iff.1 plans')) differ
  | cons entry _ ih =>
    obtain ⟨-, tail, later, rfl⟩ := planFrom_cons_ok_iff.1 plans
    obtain ⟨-, tail', later', rfl⟩ := planFrom_cons_ok_iff.1 plans'
    simp only [given_cons, spent_cons, planned_recipient]
    by_cases same : planned r entry = planned r' entry
    · rw [← same] at later' differ ⊢
      have rest := ih (by omega) later later'
        (fun item mem => covered item (List.mem_cons_of_mem _ mem)) (by simpa using differ)
      rw [sub_sub] at rest
      omega
    · -- the smaller balance does not cover the entry, and the larger one does
      have refused : 0 < entry.2 ∧ r < entry.2 ∧ entry.2 ≤ r' := by
        unfold planned at same
        split_ifs at same <;> first | omega | exact absurd rfl same
      have short : planned r entry = ⟨entry.1, entry.2, false, .insufficientBalance⟩ := by
        rw [planned, if_neg (by omega), if_pos refused.2.1]
      have paid : cost (planned r' entry) = entry.2 := by
        rw [planned, if_neg (by omega), if_neg (by omega)]
        rfl
      have other : entry.1 ≠ sender := fun own => covered _ List.mem_cons_self (by simpa using own)
        (by rw [short])
      have free : cost (planned r entry) = 0 := by
        rw [short]
        rfl
      rw [free, sub_zero] at later
      have small := planFrom_bounds sender later
      have large := (planFrom_bounds sender later').1
      rw [if_neg other, if_neg other, free, paid]
      omega

end Plans

/-! ## Slices -/

section Slices

variable {recipients : List Address} {amounts : List ℤ} {i : ℕ}

def chunk (pairs : List (Address × ℤ)) (i : ℕ) : List (Address × ℤ) :=
  (pairs.drop (i * maxBatchSize)).take maxBatchSize

theorem lt_chunkCount_iff : i < chunkCount recipients ↔ i * maxBatchSize < recipients.length := by
  simp only [chunkCount, maxBatchSize]
  omega

theorem take_succ (pairs : List (Address × ℤ)) (i : ℕ) :
    pairs.take ((i + 1) * maxBatchSize) = pairs.take (i * maxBatchSize) ++ chunk pairs i := by
  rw [chunk, Nat.succ_mul, List.take_add]

variable (equal : recipients.length = amounts.length)
include equal

theorem zip_slices (start : ℕ) :
    ((recipients.drop start).take (min (start + maxBatchSize) recipients.length - start)).zip
        ((amounts.drop start).take (min (start + maxBatchSize) recipients.length - start)) =
      ((recipients.zip amounts).drop start).take maxBatchSize := by
  have size : min (start + maxBatchSize) recipients.length - start =
      min maxBatchSize ((recipients.zip amounts).drop start).length := by
    simp only [List.length_drop, List.length_zip]
    omega
  rw [size, List.zip_eq_zipWith, List.zip_eq_zipWith, ← List.take_zipWith, ← List.drop_zipWith,
    ← List.take_eq_take_min]

theorem take_chunkCount :
    (recipients.zip amounts).take (chunkCount recipients * maxBatchSize) =
      recipients.zip amounts := by
  apply List.take_of_length_le
  have all : ¬ chunkCount recipients < chunkCount recipients := lt_irrefl _
  rw [lt_chunkCount_iff] at all
  simp only [List.length_zip]
  omega

end Slices

/-! ## Balances after a batch -/

variable [DecidableEq Address]

section Paid

variable {mode : ExecutionMode} {token sender : Address} {r : ℤ} {t t' : Tokens Address}
  {pairs xs ys : List (Address × ℤ)} {plan : List (TransferResult Address)}

theorem carryOut_append (p q : List (TransferResult Address)) (t : Tokens Address) :
    carryOut token sender (p ++ q) t = (do
      let t' ← carryOut token sender p t
      carryOut token sender q t') := by
  induction p generalizing t with
  | nil => rfl
  | cons _ _ ih =>
    simp only [List.cons_append, carryOut]
    split_ifs
    · rw [bind_assoc]
      exact bind_congr fun t' => ih t'
    · exact ih t

theorem carryOut_planned (plans : planFrom mode r pairs = .ok plan)
    (covered : r ≤ t token sender) :
    ∃ t', carryOut token sender plan t = .ok t' ∧
      t' token sender = t token sender - given sender plan := by
  induction pairs generalizing r t plan with
  | nil =>
    obtain rfl := pure_ok_iff.1 plans
    exact ⟨t, rfl, by simp [given]⟩
  | cons entry _ ih =>
    obtain ⟨-, _, later, rfl⟩ := planFrom_cons_ok_iff.1 plans
    simp only [carryOut, given_cons, planned_recipient]
    rcases planned_cases r entry with ⟨good, enough, here⟩ | ⟨-, skipped⟩
    · rw [here] at later ⊢
      obtain ⟨t₁, moved⟩ : ∃ t₁, (t.transfer token sender entry.1 entry.2 : Result _) = .ok t₁ :=
        ⟨_, Tokens.transfer_ok_iff.2 ⟨good.le, enough.trans covered, rfl⟩⟩
      have change := Tokens.transfer_apply moved token sender
      simp only [true_and, if_true, eq_comm (a := sender)] at change
      have next : r - entry.2 ≤ t₁ token sender := by
        split_ifs at change <;> omega
      obtain ⟨t', done, left⟩ := ih later next
      refine ⟨t', bind_ok_iff.2 ⟨t₁, moved, done⟩, ?_⟩
      rw [left, change]
      simp only [cost, if_true]
      split_ifs <;> omega
    · have free : cost (planned r entry) = 0 := by simp [cost, skipped]
      rw [free, sub_zero] at later
      obtain ⟨t', done, left⟩ := ih later covered
      simp only [skipped, free, ite_self, zero_add]
      exact ⟨t', done, left⟩

theorem carryOut_own (own : ∀ item ∈ plan, item.recipient = sender)
    (done : carryOut token sender plan t = .ok t') : t' = t := by
  induction plan with
  | nil => exact (pure_ok_iff.1 done).symm
  | cons item _ ih =>
    have rest := ih fun item mem => own item (List.mem_cons_of_mem _ mem)
    unfold carryOut at done
    split_ifs at done
    · obtain ⟨t₁, moved, done⟩ := bind_ok_iff.1 done
      have same : t₁ = t := by
        funext k a
        rw [Tokens.transfer_apply moved, own item List.mem_cons_self]
        omega
      exact rest (same ▸ done)
    · exact rest done

/-- A batch: the plan carried out, and a summary of it. -/
def settle {α : Type} (summary : List (TransferResult Address) → α) (mode : ExecutionMode)
    (token sender : Address) (pairs : List (Address × ℤ)) (t : Tokens Address) :
    Result (α × Tokens Address) := do
  let plan ← planFrom mode (t token sender) pairs
  let t' ← carryOut token sender plan t
  pure (summary plan, t')

/-- The balances after a batch; they stay as they are if it is rejected. -/
def paid (mode : ExecutionMode) (token sender : Address) (pairs : List (Address × ℤ))
    (t : Tokens Address) : Tokens Address := (attempt (settle id mode token sender pairs t) t).2

theorem attempt_settle {α : Type} (summary : List (TransferResult Address) → α) :
    (attempt (settle summary mode token sender pairs t) t).2 = paid mode token sender pairs t := by
  unfold paid settle
  cases planFrom mode (t token sender) pairs with
  | error => rfl
  | ok plan =>
    change (attempt (carryOut token sender plan t >>= _) t).2 =
      (attempt (carryOut token sender plan t >>= _) t).2
    cases carryOut token sender plan t <;> rfl

theorem paid_of_rejected (rejected : ¬ Passes mode (t token sender) pairs) :
    paid mode token sender pairs t = t := by
  unfold paid settle
  cases h : planFrom mode (t token sender) pairs with
  | ok plan => exact absurd ⟨plan, h⟩ rejected
  | error => rfl

theorem paid_eq (plans : planFrom mode (t token sender) pairs = .ok plan)
    (done : carryOut token sender plan t = .ok t') : paid mode token sender pairs t = t' := by
  rw [paid, settle, bind_of_ok plans, bind_of_ok done]
  rfl

theorem carryOut_paid (plans : planFrom mode (t token sender) pairs = .ok plan) :
    carryOut token sender plan t = .ok (paid mode token sender pairs t) ∧
      paid mode token sender pairs t token sender = t token sender - given sender plan := by
  obtain ⟨_, done, left⟩ := carryOut_planned plans le_rfl
  rw [paid_eq plans done]
  exact ⟨done, left⟩

theorem paid_append {p q : List (TransferResult Address)}
    (first : planFrom mode (t token sender) xs = .ok p)
    (second : planFrom mode (t token sender - spent p) ys = .ok q)
    (again : planFrom mode (paid mode token sender xs t token sender) ys = .ok q) :
    paid mode token sender (xs ++ ys) t =
      paid mode token sender ys (paid mode token sender xs t) := by
  refine paid_eq (planFrom_append_ok_iff.2 ⟨p, q, first, second, rfl⟩) ?_
  rw [carryOut_append, bind_of_ok (carryOut_paid first).1]
  exact (carryOut_paid again).1

theorem paid_le : paid mode token sender pairs t token sender ≤ t token sender := by
  by_cases passes : Passes mode (t token sender) pairs
  · obtain ⟨_, plans⟩ := passes
    have nonneg := (planFrom_bounds sender plans).1
    rw [(carryOut_paid plans).2]
    omega
  · rw [paid_of_rejected passes]

/-- An all-or-nothing batch of payments to the sender itself changes nothing. -/
theorem paid_own (own : Passes .allOrNothing (t token sender) pairs →
      ∀ entry ∈ pairs, entry.1 = sender) :
    paid .allOrNothing token sender pairs t = t := by
  by_cases passes : Passes .allOrNothing (t token sender) pairs
  · obtain ⟨plan, plans⟩ := passes
    refine carryOut_own (fun item mem => ?_) (carryOut_paid plans).1
    rw [(planFrom_strict plans le_rfl).2] at mem
    obtain ⟨entry, there, rfl⟩ := List.mem_map.1 mem
    exact own ⟨plan, plans⟩ entry there
  · exact paid_of_rejected passes

/-- Chunk `i` of a lenient list is planned alike from what one batch has left before it and from the
balance of the sender at that point, in which what it paid to itself is not spent. -/
def PlannedAlike (sender : Address) (r : ℤ) (pairs : List (Address × ℤ)) (i : ℕ) : Prop :=
  ∀ p, planFrom .partialMode r (pairs.take (i * maxBatchSize)) = .ok p →
    planFrom .partialMode (r - spent p) (chunk pairs i) =
      planFrom .partialMode (r - given sender p) (chunk pairs i)

theorem paid_take_succ {i : ℕ} (alike : PlannedAlike sender (t token sender) pairs i) :
    paid .partialMode token sender (pairs.take ((i + 1) * maxBatchSize)) t =
      paid .partialMode token sender (chunk pairs i)
        (paid .partialMode token sender (pairs.take (i * maxBatchSize)) t) := by
  obtain ⟨p, first⟩ := passes_partial (t token sender) (pairs.take (i * maxBatchSize))
  obtain ⟨q, second⟩ := passes_partial (t token sender - spent p) (chunk pairs i)
  rw [take_succ]
  refine paid_append first second ?_
  rw [(carryOut_paid first).2, ← alike p first]
  exact second

/-! ## One chunk after another -/

/-- The balances after the first chunks. -/
def paidChunks (mode : ExecutionMode) (token sender : Address) (pairs : List (Address × ℤ))
    (t : Tokens Address) : ℕ → Tokens Address
  | 0 => t
  | i + 1 => paid mode token sender (chunk pairs i) (paidChunks mode token sender pairs t i)

/-- If every chunk joins the entries before it to one batch, the chunks are one batch. -/
theorem paidChunks_eq_paid {n : ℕ} (joins : ∀ i < n,
      paid mode token sender (pairs.take ((i + 1) * maxBatchSize)) t =
        paid mode token sender (chunk pairs i)
          (paid mode token sender (pairs.take (i * maxBatchSize)) t)) :
    paidChunks mode token sender pairs t n =
      paid mode token sender (pairs.take (n * maxBatchSize)) t := by
  induction n with
  | zero => rfl
  | succ n ih =>
    rw [paidChunks, ih fun i less => joins i (Nat.lt_succ_of_lt less),
      joins n (Nat.lt_succ_self n)]

theorem paidChunks_strict (passes : Passes .allOrNothing (t token sender) pairs) (n : ℕ) :
    paidChunks .allOrNothing token sender pairs t n =
      paid .allOrNothing token sender (pairs.take (n * maxBatchSize)) t := by
  refine paidChunks_eq_paid fun i _ => ?_
  rw [← List.take_append_drop ((i + 1) * maxBatchSize) pairs, take_succ] at passes
  obtain ⟨_, plans⟩ := passes.of_append
  obtain ⟨p, q, first, second, rfl⟩ := planFrom_append_ok_iff.1 plans
  have left : t token sender - spent p ≤
      paid .allOrNothing token sender (pairs.take (i * maxBatchSize)) t token sender := by
    have le := (planFrom_bounds sender first).2.1
    rw [(carryOut_paid first).2]
    omega
  rw [take_succ]
  exact paid_append first second (planFrom_strict second left).1

theorem paidChunks_of_own {n : ℕ}
    (own : ∀ i < n, Passes .allOrNothing (t token sender) (chunk pairs i) →
      ∀ entry ∈ chunk pairs i, entry.1 = sender) :
    paidChunks .allOrNothing token sender pairs t n = t := by
  induction n with
  | zero => rfl
  | succ n ih =>
    rw [paidChunks, ih fun i less => own i (Nat.lt_succ_of_lt less)]
    exact paid_own (own n (Nat.lt_succ_self n))

theorem paidChunks_le {i n : ℕ} (le : i ≤ n) :
    paidChunks mode token sender pairs t n token sender ≤
      paidChunks mode token sender pairs t i token sender := by
  induction n, le using Nat.le_induction with
  | base => exact le_rfl
  | succ _ _ ih => exact paid_le.trans ih

/-- A chunk that passes before the whole list fails is not taken back. -/
theorem own_of_paidChunks_eq {n : ℕ}
    (same : paidChunks .allOrNothing token sender pairs t n = t) (i : ℕ) (less : i < n)
    (passes : Passes .allOrNothing (t token sender) (chunk pairs i)) :
    ∀ entry ∈ chunk pairs i, entry.1 = sender := by
  -- the first chunk that pays another lowers the balance of the sender, and no later one raises it
  induction i using Nat.strong_induction_on with
  | _ i ih =>
    intro entry mem
    by_contra other
    have start : paidChunks .allOrNothing token sender pairs t i = t :=
      paidChunks_of_own fun k earlier passes => ih k earlier (earlier.trans less) passes
    have final : paidChunks .allOrNothing token sender pairs t n token sender ≤
        paidChunks .allOrNothing token sender pairs t (i + 1) token sender :=
      paidChunks_le (Nat.succ_le_of_lt less)
    obtain ⟨_, plans⟩ := passes
    have positive := given_pos plans mem other
    rw [same, paidChunks, start, (carryOut_paid plans).2] at final
    omega

/-- One lenient batch refuses the sender nothing that it would pay to itself for want of balance. -/
def OwnCovered (sender : Address) (r : ℤ) (pairs : List (Address × ℤ)) : Prop :=
  ∀ plan, planFrom .partialMode r pairs = .ok plan →
    ∀ item ∈ plan, item.recipient = sender → item.failure ≠ .insufficientBalance

/-- A chunk of a lenient list that is planned otherwise pays more than one batch ever does. -/
theorem alike_of_paidChunks_eq {n : ℕ} (covered : OwnCovered sender (t token sender) pairs)
    (same : paidChunks .partialMode token sender pairs t n =
      paid .partialMode token sender pairs t) (i : ℕ) (less : i < n) :
    PlannedAlike sender (t token sender) pairs i := by
  induction i using Nat.strong_induction_on with
  | _ i ih =>
    intro p first
    by_contra differ
    obtain ⟨q, second⟩ := passes_partial (t token sender - spent p) (chunk pairs i)
    obtain ⟨q', again⟩ := passes_partial (t token sender - given sender p) (chunk pairs i)
    obtain ⟨rest, last⟩ := passes_partial (t token sender - spent (p ++ q))
      (pairs.drop ((i + 1) * maxBatchSize))
    have whole : planFrom .partialMode (t token sender) pairs = .ok (p ++ q ++ rest) := by
      rw [← List.take_append_drop ((i + 1) * maxBatchSize) pairs, take_succ]
      exact planFrom_append_ok_iff.2
        ⟨_, rest, planFrom_append_ok_iff.2 ⟨p, q, first, second, rfl⟩, last, rfl⟩
    have before := planFrom_bounds sender first
    have excess := given_lt_of_ne (by omega) second again
      (fun item mem => covered _ whole item (by simp [mem]))
      fun h => differ (second.trans (h ▸ again.symm))
    have after := planFrom_bounds sender last
    have start := paidChunks_eq_paid fun k earlier =>
      paid_take_succ (ih k earlier (earlier.trans less))
    have final : paidChunks .partialMode token sender pairs t n token sender ≤
        paidChunks .partialMode token sender pairs t (i + 1) token sender :=
      paidChunks_le (Nat.succ_le_of_lt less)
    rw [← (carryOut_paid first).2] at again
    rw [same, (carryOut_paid whole).2, paidChunks, start, (carryOut_paid again).2,
      (carryOut_paid first).2, given_append, given_append] at final
    rw [spent_append] at after
    omega

/-- When the first chunks of a list amount to one batch: every chunk of a lenient list is planned as
in one batch; an all-or-nothing list passes as a whole, or each of its chunks alone fails or pays
only the sender itself. -/
def Joins (mode : ExecutionMode) (sender : Address) (r : ℤ) (pairs : List (Address × ℤ)) (n : ℕ) :
    Prop :=
  match mode with
  | .partialMode => ∀ i < n, PlannedAlike sender r pairs i
  | .allOrNothing => Passes .allOrNothing r pairs ∨
      ∀ i < n, Passes .allOrNothing r (chunk pairs i) → ∀ entry ∈ chunk pairs i, entry.1 = sender

end Paid

/-! ## All chunks -/

section Chunks

variable {this : Address} {env : ℕ → Env this} {mode : ExecutionMode} {token sender : Address}
  {recipients : List Address} {amounts : List ℤ} {t : Tokens Address}

theorem executeChunked_eq {env : Env this} (auth : env.auth sender = true)
    (equal : recipients.length = amounts.length) {i : ℕ}
    (inside : i * maxBatchSize < recipients.length) (fits : recipients.length ≤ 4294967200) :
    executeChunked env token sender recipients amounts mode i t =
      settle (fun plan => ⟨plan.countP (·.success), plan.countP (!·.success), 1⟩) mode token sender
        (chunk (recipients.zip amounts) i) t := by
  have start : i * maxBatchSize < 2 ^ 32 := by omega
  have room : i * maxBatchSize + maxBatchSize < 2 ^ 32 := by
    simp only [maxBatchSize] at inside ⊢
    omega
  have some : ¬ recipients.length = 0 := by omega
  rw [executeChunked, bind_of_ok (a := ()) (requireAuth_ok_iff.2 auth),
    bind_of_ok (a := ()) (reject_ok_iff.2 some),
    bind_of_ok (a := ()) (reject_ok_iff.2 (not_not.2 equal)),
    bind_of_ok (u32_ok_iff.2 ⟨start, rfl⟩), if_neg (not_le.2 inside),
    bind_of_ok (u32_ok_iff.2 ⟨room, rfl⟩), settle, chunk, ← zip_slices equal]
  dsimp only
  -- a slice is neither empty nor too long, and the slices are of one length
  set size := min (i * maxBatchSize + maxBatchSize) recipients.length - i * maxBatchSize with hsize
  have bounds : size ≠ 0 ∧ size ≤ maxBatchSize ∧ i * maxBatchSize + size ≤ recipients.length := by
    simp only [maxBatchSize] at inside hsize ⊢
    omega
  have length : ((recipients.drop (i * maxBatchSize)).take size).length = size ∧
      ((amounts.drop (i * maxBatchSize)).take size).length = size := by
    simp only [List.length_take, List.length_drop]
    omega
  rw [simulateBatch, validateLengths, length.1, length.2,
    bind_of_ok (a := ()) (reject_ok_iff.2 bounds.1),
    bind_of_ok (a := ()) (reject_ok_iff.2 (not_not.2 rfl)),
    bind_of_ok (a := ()) (reject_ok_iff.2 (not_lt.2 bounds.2.1))]

theorem executeChunks_of_ne (differ : recipients.length ≠ amounts.length) (count : ℕ) :
    executeChunks env token sender recipients amounts mode t count = t := by
  induction count with
  | zero => rfl
  | succ count ih =>
    rw [executeChunks, ih]
    cases h : executeChunked (env count) token sender recipients amounts mode count t with
    | ok =>
      simp only [executeChunked, ok_iff] at h
      obtain ⟨_, -, _, -, _, equal, -⟩ := h
      exact absurd (not_not.1 equal) differ
    | error => rfl

theorem executeChunks_eq (auth : ∀ i, (env i).auth sender = true)
    (equal : recipients.length = amounts.length) (fits : recipients.length ≤ 4294967200) {n : ℕ}
    (le : n ≤ chunkCount recipients) :
    executeChunks env token sender recipients amounts mode t n =
      paidChunks mode token sender (recipients.zip amounts) t n := by
  induction n with
  | zero => rfl
  | succ n ih =>
    rw [executeChunks, ih (Nat.le_of_succ_le le),
      executeChunked_eq (auth n) equal (lt_chunkCount_iff.1 le) fits]
    exact attempt_settle _

theorem executeUnbounded_state {env' : Env this} (auth' : env'.auth sender = true)
    (equal : recipients.length = amounts.length) :
    (attempt (executeUnbounded env' token sender recipients amounts mode t) t).2 =
      paid mode token sender (recipients.zip amounts) t := by
  rw [executeUnbounded, bind_of_ok (a := ()) (requireAuth_ok_iff.2 auth')]
  by_cases none : recipients.length = 0
  · obtain rfl := List.length_eq_zero_iff.1 none
    rfl
  · rw [bind_of_ok (a := ()) (reject_ok_iff.2 none),
      bind_of_ok (a := ()) (reject_ok_iff.2 (not_not.2 equal))]
    exact attempt_settle id

theorem executeUnbounded_of_ne {env' : Env this} (differ : recipients.length ≠ amounts.length) :
    (attempt (executeUnbounded env' token sender recipients amounts mode t) t).2 = t := by
  cases h : executeUnbounded env' token sender recipients amounts mode t with
  | ok =>
    simp only [executeUnbounded, ok_iff] at h
    obtain ⟨_, -, _, -, _, equal, -⟩ := h
    exact absurd (not_not.1 equal) differ
  | error => rfl

/-- For a list that `u32` arithmetic can cut into chunks: if the chunks join, executing all of them
leaves the balances of one batch without a bound; an all-or-nothing list then pays everybody or
nobody.  The balances are those of one batch only if the chunks join, unless a lenient batch refuses
the sender what it would pay to itself. -/
theorem chunked_eq_unbounded {env' : Env this} (auth : ∀ i, (env i).auth sender = true)
    (auth' : env'.auth sender = true) (fits : recipients.length ≤ 4294967200) :
    (Joins mode sender (t token sender) (recipients.zip amounts) (chunkCount recipients) →
      executeChunks env token sender recipients amounts mode t (chunkCount recipients) =
        (attempt (executeUnbounded env' token sender recipients amounts mode t) t).2 ∧
      (mode = .allOrNothing →
        executeChunks env token sender recipients amounts mode t (chunkCount recipients) = t ∨
        carryOut token sender ((recipients.zip amounts).map fun entry =>
          ⟨entry.1, entry.2, true, .none⟩) t =
          .ok (executeChunks env token sender recipients amounts mode t
            (chunkCount recipients)))) ∧
    (recipients.length = amounts.length →
      (mode = .partialMode → OwnCovered sender (t token sender) (recipients.zip amounts)) →
      executeChunks env token sender recipients amounts mode t (chunkCount recipients) =
        (attempt (executeUnbounded env' token sender recipients amounts mode t) t).2 →
      Joins mode sender (t token sender) (recipients.zip amounts) (chunkCount recipients)) := by
  by_cases equal : recipients.length = amounts.length
  · rw [executeUnbounded_state auth' equal, executeChunks_eq auth equal fits le_rfl]
    refine ⟨fun joins => ?_, fun _ covered same => ?_⟩
    · cases mode with
      | partialMode =>
        rw [paidChunks_eq_paid fun i less => paid_take_succ (joins i less), take_chunkCount equal]
        exact ⟨rfl, fun strict => by cases strict⟩
      | allOrNothing =>
        by_cases passes : Passes .allOrNothing (t token sender) (recipients.zip amounts)
        · rw [paidChunks_strict passes, take_chunkCount equal]
          obtain ⟨_, plans⟩ := passes
          rw [← (planFrom_strict plans le_rfl).2]
          exact ⟨rfl, fun _ => .inr (carryOut_paid plans).1⟩
        · rw [paidChunks_of_own (joins.resolve_left passes), paid_of_rejected passes]
          exact ⟨rfl, fun _ => .inl rfl⟩
    · cases mode with
      | partialMode => exact alike_of_paidChunks_eq (covered rfl) same
      | allOrNothing =>
        by_cases passes : Passes .allOrNothing (t token sender) (recipients.zip amounts)
        · exact .inl passes
        · rw [paid_of_rejected passes] at same
          exact .inr (own_of_paidChunks_eq same)
  · rw [executeUnbounded_of_ne equal, executeChunks_of_ne equal]
    exact ⟨fun _ => ⟨rfl, fun _ => .inl rfl⟩, fun same => absurd same equal⟩

end Chunks

/-! ## A hundred and one transfers -/

def everybody : Env 0 := ⟨0, fun a => a ≠ 0, zero_unsigned⟩

def holding (balance : ℤ) : Tokens ℕ := fun token holder =>
  if token = 9 ∧ holder = 1 then balance else 0

instance (sender : ℕ) (r : ℤ) (pairs : List (ℕ × ℤ)) (i : ℕ) :
    Decidable (PlannedAlike sender r pairs i) :=
  inferInstanceAs (Decidable (∀ _, _ → _))

instance (sender : ℕ) (r : ℤ) (pairs : List (ℕ × ℤ)) : Decidable (OwnCovered sender r pairs) :=
  inferInstanceAs (Decidable (∀ _, _ → _))

def inChunks (mode : ExecutionMode) (recipients : List ℕ) (amounts : List ℤ) (balance : ℤ) :
    Tokens ℕ :=
  executeChunks (fun _ => everybody) 9 1 recipients amounts mode (holding balance)
    (chunkCount recipients)

def inOneBatch (mode : ExecutionMode) (recipients : List ℕ) (amounts : List ℤ) (balance : ℤ) :
    Tokens ℕ :=
  (attempt (executeUnbounded everybody 9 1 recipients amounts mode (holding balance))
    (holding balance)).2

def hundredOnes : List ℤ := List.replicate 100 1

/-- A sender that offers itself nothing joins, and one that pays itself what it then lacks does
not. -/
theorem hundred_one_join :
    inChunks .allOrNothing (List.replicate 101 2) (1 :: hundredOnes) 101 =
      inOneBatch .allOrNothing (List.replicate 101 2) (1 :: hundredOnes) 101 ∧
    inChunks .partialMode (1 :: List.replicate 100 2) (0 :: hundredOnes) 200 =
      inOneBatch .partialMode (1 :: List.replicate 100 2) (0 :: hundredOnes) 200 ∧
    inChunks .partialMode (1 :: List.replicate 100 2) (60 :: hundredOnes) 100 ≠
      inOneBatch .partialMode (1 :: List.replicate 100 2) (60 :: hundredOnes) 100 := by
  have strict : Joins .allOrNothing 1 (holding 101 9 1)
      ((List.replicate 101 2).zip (1 :: hundredOnes)) (chunkCount (List.replicate 101 2)) :=
    .inl (show ∃ plan, planFrom .allOrNothing (holding 101 9 1)
      ((List.replicate 101 2).zip (1 :: hundredOnes)) = .ok plan by decide +kernel)
  have lenient : Joins .partialMode 1 (holding 200 9 1)
      ((1 :: List.replicate 100 2).zip (0 :: hundredOnes))
      (chunkCount (1 :: List.replicate 100 2)) :=
    show ∀ i < 2, PlannedAlike 1 (holding 200 9 1)
      ((1 :: List.replicate 100 2).zip (0 :: hundredOnes)) i by decide +kernel
  have covered : OwnCovered 1 (holding 100 9 1)
      ((1 :: List.replicate 100 2).zip (60 :: hundredOnes)) := by
    decide +kernel
  have differ : ¬ PlannedAlike 1 (holding 100 9 1)
      ((1 :: List.replicate 100 2).zip (60 :: hundredOnes)) 1 := by
    decide +kernel
  refine ⟨((chunked_eq_unbounded (fun _ => rfl) rfl (by decide)).1 strict).1,
    ((chunked_eq_unbounded (fun _ => rfl) rfl (by decide)).1 lenient).1, fun same => differ ?_⟩
  have joins := (chunked_eq_unbounded (fun _ => rfl) rfl (by decide)).2 (by decide)
    (fun _ => covered) same
  exact joins 1 (by decide)

/-- With a balance for a hundred of them the chunks pay a hundred, and one batch nobody.  A sender
that pays its whole balance to itself, and to `2` in the next chunk, pays `2` in chunks and not in
one batch. -/
theorem chunks_are_not_one_batch :
    (inChunks .allOrNothing (List.replicate 101 2) (1 :: hundredOnes) 100 9 2 = 100 ∧
      inOneBatch .allOrNothing (List.replicate 101 2) (1 :: hundredOnes) 100 9 2 = 0) ∧
    inChunks .partialMode (List.replicate 100 1 ++ [2]) (List.replicate 101 100) 100 9 2 = 100 ∧
      inOneBatch .partialMode (List.replicate 100 1 ++ [2]) (List.replicate 101 100) 100 9 2 =
        0 := by
  decide +kernel

/-- The sender pays itself 2, in the next chunk offers itself 9 and `2` 5, and in the last chunk `2`
5 again. -/
def crossed : List (ℕ × ℤ) :=
  (1, 2) :: List.replicate 99 (2, 0) ++ (1, 9) :: (2, 5) :: List.replicate 98 (2, 0) ++ [(2, 5)]

-- With 10 the chunks pay the 9 and the second 5, one batch only the first 5: the plans differ, and
-- the balances agree.
example : ¬ PlannedAlike 1 10 crossed 1 ∧
    inChunks .partialMode (crossed.map Prod.fst) (crossed.map Prod.snd) 10 9 2 =
      inOneBatch .partialMode (crossed.map Prod.fst) (crossed.map Prod.snd) 10 9 2 := by
  decide +kernel

end BatchTransfer
