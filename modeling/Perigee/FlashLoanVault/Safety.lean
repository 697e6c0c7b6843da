import Perigee.FlashLoanVault.Contract

/-!
# Safety of the flash-loan vault

Whatever the callbacks do, a loan that returns has been repaid with its fee, nothing that moves the
vault's books succeeds while a loan is active, and between loans the recorded deposits are covered
by the vault's balance (`loans_safe`).
-/

namespace FlashLoanVault

open Soroban

variable {Address : Type} [DecidableEq Address] {this : Address} {borrowBit : BitVec 32}
  {w w' : World Address} {loan : Loan Address}

def balance (this : Address) (w : World Address) : ℤ :=
  w.token.elim 0 fun token => w.tokens token this

/-! ## What the calls do -/

inductive Effect (this : Address) (w : World Address) : World Address → Prop
  | initializeVault {admin token : Address} (fresh : w.admin = none) :
      Effect this w { w with
        admin := some admin
        token := some token
        feeBps := some defaultFeeBps
        flashLoanActive := some false
        borrowPaused := some false
        totalDeposited := some 0 }
  | deposit {token src : Address} {amount : ℤ} {tokens : Tokens Address}
      (idle : isFlashLoanActive w = false) (other : src ≠ this) (lends : w.token = some token)
      (moved : (w.tokens.transfer token src this amount : Outcome Error _) = .ok tokens) :
      Effect this w (setTotalDeposited (getTotalDeposited w + amount) { w with tokens })
  | withdraw {token dst : Address} {amount : ℤ} {tokens : Tokens Address}
      (idle : isFlashLoanActive w = false) (other : dst ≠ this) (lends : w.token = some token)
      (moved : (w.tokens.transfer token this dst amount : Outcome Error _) = .ok tokens) :
      Effect this w (setTotalDeposited (getTotalDeposited w - amount) { w with tokens })
  | setFee {feeBps : ℤ} (idle : isFlashLoanActive w = false)
      (range : 0 ≤ feeBps ∧ feeBps ≤ maxFeeBps) : Effect this w { w with feeBps := some feeBps }
  | switch {guard : Guards.World Address} {borrowPaused : Option Bool} :
      Effect this w { w with guard, borrowPaused }
  | elsewhere {tokens : Tokens Address} (grow : ∀ token, w.tokens token this ≤ tokens token this) :
      Effect this w { w with tokens }

omit [DecidableEq Address] in
theorem checkNoFlashLoanActive_ok {u : Unit} (h : checkNoFlashLoanActive w = .ok u) :
    isFlashLoanActive w = false := by
  unfold checkNoFlashLoanActive at h
  rw [reject_ok_iff] at h
  simpa using h

theorem serves_effect {request : Request this} (h : Serves borrowBit request w w') :
    Effect this w w' := by
  cases request with
  | initializeVault =>
    simp only [Serves, initializeVault, ok_iff] at h
    obtain ⟨_, fresh, rfl⟩ := h
    exact .initializeVault (by simpa using fresh)
  | deposit =>
    simp only [Serves, deposit, transferToken, loadToken, ok_iff, requireAuth_ok_iff] at h
    obtain ⟨_, idle, _, _, admin, _, _, _, _, auth, token, lends, _, ⟨tokens, moved, rfl⟩, _,
      ⟨_, rfl⟩, rfl⟩ := h
    exact .deposit (checkNoFlashLoanActive_ok idle) (Env.ne_this auth) lends moved
  | withdraw =>
    simp only [Serves, withdraw, transferToken, loadToken, ok_iff, requireAuth_ok_iff] at h
    obtain ⟨_, idle, _, _, admin, _, _, _, _, auth, _, _, token, lends, _, ⟨tokens, moved, rfl⟩, _,
      ⟨_, rfl⟩, rfl⟩ := h
    exact .withdraw (checkNoFlashLoanActive_ok idle) (Env.ne_this auth) lends moved
  | setFee =>
    simp only [Serves, setFee, ok_iff, not_not] at h
    obtain ⟨_, idle, _, range, admin, _, _, _, rfl⟩ := h
    exact .setFee (checkNoFlashLoanActive_ok idle) range
  | setPaused | pauseBorrow | resumeBorrow | emergencyPause =>
    simp only [Serves, setPaused, pauseBorrow, resumeBorrow, emergencyPause, ok_iff] at h
    obtain ⟨_, _, _, _, rfl⟩ := h
    exact .switch
  | elsewhere =>
    obtain ⟨grow, rfl⟩ := h
    exact .elsewhere grow

structure Lent (this : Address) (w : World Address) (loan : Loan Address) (w' : World Address) :
    Prop where
  idle : isFlashLoanActive w = false
  lends : w.token = some loan.token
  before : loan.before = w
  preBalance : loan.preBalance = w.tokens loan.token this
  fee_nonneg : 0 ≤ getFeeBps w → 0 ≤ loan.fee
  moved : ∃ borrower amount tokens borrowRecord,
    (w.tokens.transfer loan.token this borrower amount : Outcome Error _) = .ok tokens ∧
      w' = { w with flashLoanActive := some true, borrowRecord, tokens }

theorem fee_nonneg {amount feeBps : ℤ} (positive : 0 < amount) (range : 0 ≤ feeBps) :
    0 ≤ (amount * feeBps).tdiv 10000 :=
  Int.tdiv_nonneg (mul_nonneg positive.le range) (by norm_num)

theorem lend_lent {request : LoanRequest this} (h : lend borrowBit w request = .ok (loan, w')) :
    Lent this w loan w' := by
  cases request with
  | flashLoan _ _ receiver amount =>
    simp only [lend, flashLoan, transferToken, loadToken, ok_iff] at h
    obtain ⟨_, _, _, _, _, positive, _, idle, _, _, token, lends, _, _, _, ⟨_, rfl⟩, _, ⟨_, _, rfl⟩,
      _, ⟨tokens, moved, rfl⟩, rfl, rfl⟩ := h
    exact ⟨checkNoFlashLoanActive_ok idle, lends, rfl, rfl, fee_nonneg (not_le.1 positive),
      receiver, amount, tokens, _, moved, rfl⟩
  | borrow borrower amount =>
    simp only [lend, borrow, calculateFee, transferToken, loadToken, ok_iff] at h
    obtain ⟨_, _, _, _, _, positive, _, idle, token, lends, _, _, _, ⟨_, ⟨_, rfl⟩, _, _, rfl⟩, _,
      ⟨_, rfl⟩, _, ⟨tokens, moved, rfl⟩, rfl, rfl⟩ := h
    exact ⟨by simpa using idle, lends, rfl, rfl, fee_nonneg (not_le.1 positive), borrower,
      amount, tokens, _, moved, rfl⟩

theorem settle_ok {fee : ℤ} (h : settle this loan w = .ok (fee, w')) :
    fee = loan.fee ∧ loan.preBalance + loan.fee ≤ w.tokens loan.token this ∧
      ∃ totalDeposited borrowRecord,
        w' = { w with flashLoanActive := some false, totalDeposited, borrowRecord } ∧
          totalDeposited.getD 0 = getTotalDeposited w + max loan.fee 0 := by
  unfold settle at h
  cases kind : loan.borrower with
  | none | some =>
    simp only [kind, finishFlashLoan, finishBorrow, ok_iff] at h
    obtain ⟨_, ⟨-, rfl⟩, _, repaid, _, collected, rfl, rfl⟩ := h
    unfold collectFee at collected
    split_ifs at collected with positive
    · simp only [ok_iff] at collected
      obtain ⟨_, ⟨-, rfl⟩, rfl⟩ := collected
      exact ⟨rfl, not_lt.1 repaid, _, _, rfl, by rw [max_eq_left positive.le]; rfl⟩
    · obtain rfl := pure_ok_iff.1 collected
      refine ⟨rfl, not_lt.1 repaid, _, _, rfl, ?_⟩
      rw [max_eq_right (not_lt.1 positive), add_zero]
      rfl

/-! ## The invariant -/

/-- What holds with and without loans. -/
structure Configured (this : Address) (w : World Address) : Prop where
  nonneg : ∀ token, 0 ≤ w.tokens token this
  fee_nonneg : 0 ≤ getFeeBps w
  owned : w.admin = none → w.token = none

structure Idle (this : Address) (w : World Address) : Prop extends Configured this w where
  inactive : isFlashLoanActive w = false
  covered : getTotalDeposited w ≤ balance this w

structure Lending (this : Address) (loan : Loan Address) (w : World Address) : Prop
    extends Configured this w where
  active : isFlashLoanActive w = true
  lends : w.token = some loan.token
  fee_loan : 0 ≤ loan.fee
  covered : getTotalDeposited w ≤ loan.preBalance
  preBalance : loan.preBalance = balance this loan.before
  before : Idle this loan.before

/-- The state of the books with the given loans in progress. -/
def Books (this : Address) : List (Loan Address) → World Address → Prop
  | [], w => Idle this w
  | [loan], w => Lending this loan w
  | _, _ => False

/-! ## Transfers of the vault's tokens -/

section Transfers

variable {t t' : Tokens Address} {token other : Address} {amount : ℤ}

theorem sent_nonneg (moved : (t.transfer token this other amount : Outcome Error _) = .ok t')
    (nonneg : ∀ k, 0 ≤ t k this) (k : Address) : 0 ≤ t' k this := by
  have before := nonneg k
  obtain ⟨_, _, -⟩ := Tokens.transfer_ok_iff.1 moved
  rw [Tokens.transfer_apply moved]
  by_cases same : k = token
  · split_ifs <;> simp_all
  · simpa [same] using before

theorem transfer_grows {src dst : Address} (ne : src ≠ this)
    (moved : (t.transfer token src dst amount : Outcome Error _) = .ok t') (k : Address) :
    t k this ≤ t' k this := by
  obtain ⟨_, -, -⟩ := Tokens.transfer_ok_iff.1 moved
  rw [Tokens.transfer_apply moved]
  simp only [ne.symm, and_false, if_false]
  split_ifs <;> omega

end Transfers

/-! ## Requests keep the books -/

theorem Configured.effect (configured : Configured this w) (effect : Effect this w w') :
    Configured this w' := by
  obtain ⟨nonneg, fee, owned⟩ := configured
  cases effect with
  | initializeVault => exact ⟨nonneg, le_rfl, fun h => by cases h⟩
  | deposit _ other _ moved =>
    exact ⟨fun k => (nonneg k).trans (transfer_grows other moved k), fee, owned⟩
  | withdraw _ _ _ moved => exact ⟨sent_nonneg moved nonneg, fee, owned⟩
  | setFee _ range => exact ⟨nonneg, range.1, owned⟩
  | switch => exact ⟨nonneg, fee, owned⟩
  | elsewhere grow => exact ⟨fun k => (nonneg k).trans (grow k), fee, owned⟩

omit [DecidableEq Address] in
theorem balance_of_token {token : Address} (lends : w.token = some token) :
    balance this w = w.tokens token this := by
  rw [balance, lends]
  rfl

theorem Idle.effect (idle : Idle this w) (effect : Effect this w w') : Idle this w' := by
  refine ⟨idle.toConfigured.effect effect, ?_, ?_⟩
  · cases effect with
    | initializeVault => rfl
    | _ => exact idle.inactive
  · have covered := idle.covered
    cases effect with
    | initializeVault => exact idle.nonneg _
    | @deposit token _ amount tokens _ other lends moved =>
      have gained := Tokens.transfer_apply moved token this
      rw [balance_of_token lends] at covered
      rw [lends]
      show getTotalDeposited w + amount ≤ tokens token this
      simp [other.symm] at gained
      omega
    | @withdraw token _ amount tokens _ other lends moved =>
      have paid := Tokens.transfer_apply moved token this
      rw [balance_of_token lends] at covered
      change _ ≤ w.token.elim 0 fun token => tokens token this
      rw [lends]
      show getTotalDeposited w - amount ≤ tokens token this
      simp [other.symm] at paid
      omega
    | setFee | switch => exact covered
    | elsewhere grow =>
      refine covered.trans ?_
      unfold balance
      cases w.token with
      | none => exact le_rfl
      | some token => exact grow token

theorem Lending.effect (lending : Lending this loan w) (effect : Effect this w w') :
    Lending this loan w' := by
  have configured := lending.toConfigured.effect effect
  have busy (idle : isFlashLoanActive w = false) : Lending this loan w' := by
    rw [lending.active] at idle
    cases idle
  cases effect with
  | initializeVault fresh =>
    have unset := lending.owned fresh
    rw [lending.lends] at unset
    cases unset
  | deposit idle | withdraw idle | setFee idle => exact busy idle
  | switch | elsewhere => exact { lending with toConfigured := configured }

/-! ## Loans keep the books -/

theorem Idle.lend (idle : Idle this w) (lent : Lent this w loan w') : Lending this loan w' := by
  obtain ⟨_, _, _, _, moved, rfl⟩ := lent.moved
  have pre : loan.preBalance = balance this w := by
    rw [lent.preBalance, balance_of_token lent.lends]
  refine ⟨⟨sent_nonneg moved idle.nonneg, idle.fee_nonneg, idle.owned⟩, rfl, lent.lends,
    lent.fee_nonneg idle.fee_nonneg, ?_, ?_, ?_⟩
  · rw [pre]
    exact idle.covered
  · rw [lent.before]
    exact pre
  · rw [lent.before]
    exact idle

theorem Lending.settled {fee : ℤ} (lending : Lending this loan w)
    (done : settle this loan w = .ok (fee, w')) :
    Idle this w' ∧ balance this loan.before + fee ≤ balance this w' := by
  obtain ⟨rfl, repaid, totalDeposited, borrowRecord, rfl, total⟩ := settle_ok done
  have after : balance this { w with
      flashLoanActive := some false, totalDeposited, borrowRecord } = w.tokens loan.token this :=
    balance_of_token (w := { w with
      flashLoanActive := some false, totalDeposited, borrowRecord }) lending.lends
  refine ⟨⟨⟨lending.nonneg, lending.fee_nonneg, lending.owned⟩, rfl, ?_⟩, ?_⟩
  · have covered := lending.covered
    have fee := lending.fee_loan
    show totalDeposited.getD 0 ≤ _
    omega
  · rw [after, ← lending.preBalance]
    exact repaid

theorem Lending.finish (lending : Lending this loan w) : Idle this (finish this loan w) := by
  unfold FlashLoanVault.finish
  split
  · rename_i done
    exact (lending.settled done).1
  · exact lending.before

theorem books_of_reachable {m : State Address}
    (reach : Reachable (Initial this) (Step this borrowBit) m) :
    Machine.Holds (Books this) m.world m.frames := by
  refine reach.invariant (P := fun m => Machine.Holds (Books this) m.world m.frames) ?_ ?_
  · rintro _ ⟨_, nonneg, rfl⟩
    exact .nil ⟨⟨nonneg, le_rfl, fun _ => rfl⟩, rfl, le_rfl⟩
  · intro m l _ holds step
    refine Machine.Step.invariant (Books this) ?_ ?_ ?_ holds step
    · intro request loans w w' books served
      have effect := serves_effect served
      rcases loans with _ | ⟨loan, _ | _⟩
      · exact Idle.effect books effect
      · exact Lending.effect books effect
      · exact books
    · intro request loans w loan w' books lent
      have lent := lend_lent lent
      rcases loans with _ | ⟨_, _ | _⟩
      · exact Idle.lend books lent
      · have active := Lending.active books
        rw [lent.idle] at active
        cases active
      · exact books
    · intro loan loans w books
      rcases loans with _ | _
      · exact Lending.finish books
      · exact False.elim books

/-! ## Safety -/

theorem saved_of_reachable {m : State Address}
    (reach : Reachable (Initial this) (Step this borrowBit) m) :
    ∀ f ∈ m.frames, ∀ loan ∈ f.resume, loan.before = f.saved := by
  refine reach.invariant (P := fun m => ∀ f ∈ m.frames, ∀ loan ∈ f.resume, loan.before = f.saved)
    ?_ ?_
  · rintro _ ⟨_, _, rfl⟩ f mem
    cases mem
  · intro m l _ saved step
    cases step with
    | call | callRefused | startRefused => exact saved
    | start lent =>
      intro f mem loan resume
      rcases List.mem_cons.1 mem with rfl | mem
      · obtain rfl := Option.some.inj resume
        exact (lend_lent lent).before
      · exact saved f mem loan resume
    | enter =>
      intro f mem loan resume
      rcases List.mem_cons.1 mem with rfl | mem
      · cases resume
      · exact saved f mem loan resume
    | leave | fail => exact fun f mem => saved f (List.mem_cons_of_mem _ mem)

/-- Nothing that moves the books is granted while a loan is active. -/
def Locked (borrowBit : BitVec 32) (this : Address) (w : World Address) : Prop :=
  ∀ (env : Env this) (a b : Address) (amount : ℤ) (w' : World Address) (loan : Loan Address),
    deposit env a amount w ≠ .ok w' ∧ withdraw env a amount w ≠ .ok w' ∧
      setFee env amount w ≠ .ok w' ∧ flashLoan borrowBit env a b amount w ≠ .ok (loan, w') ∧
      borrow borrowBit this a amount w ≠ .ok (loan, w')

theorem locked_of_active (active : isFlashLoanActive w = true) : Locked borrowBit this w := by
  intro env a b amount w' loan
  have busy {u : Unit} : checkNoFlashLoanActive w ≠ .ok u := by
    intro idle
    rw [checkNoFlashLoanActive_ok idle] at active
    cases active
  have free (request : LoanRequest this) : lend borrowBit w request ≠ .ok (loan, w') := by
    intro lent
    rw [(lend_lent lent).idle] at active
    cases active
  refine ⟨fun h => ?_, fun h => ?_, fun h => ?_, free (.flashLoan env a b amount),
    free (.borrow a amount)⟩
  all_goals
    obtain ⟨_, idle, -⟩ := bind_ok_iff.1 h
    exact busy idle

/-- In every state that any nesting of calls and callbacks leads to: without a loan in progress the
flag is clear and the deposits are covered; with one the books are locked; and a loan that returns
leaves the vault at least its balance before the call and the fee it returns. -/
theorem loans_safe {m : State Address}
    (reach : Reachable (Initial this) (Step this borrowBit) m) :
    (Machine.resumes m.frames = [] → isFlashLoanActive m.world = false ∧
      getTotalDeposited m.world ≤ balance this m.world) ∧
    (Machine.resumes m.frames ≠ [] → Locked borrowBit this m.world) ∧
    ∀ f fs loan fee w', m.frames = f :: fs → f.resume = some loan →
      settle this loan m.world = .ok (fee, w') →
      Step this borrowBit m .leave ⟨w', fs⟩ ∧ balance this f.saved + fee ≤ balance this w' := by
  have books := (books_of_reachable reach).now
  refine ⟨fun none_open => ?_, fun open_loans => ?_, fun f fs loan fee w' frames resume done => ?_⟩
  · rw [none_open] at books
    exact ⟨Idle.inactive books, Idle.covered books⟩
  · rcases h : Machine.resumes m.frames with _ | ⟨loan, _ | _⟩
    · exact absurd h open_loans
    · rw [h] at books
      exact locked_of_active (Lending.active books)
    · rw [h] at books
      exact False.elim books
  · obtain ⟨world, frames'⟩ := m
    obtain rfl : frames' = f :: fs := frames
    obtain ⟨_, rest⟩ := f
    obtain rfl : rest = some loan := resume
    have before := saved_of_reachable reach _ (List.mem_cons_self ..) loan rfl
    have returned : finish this loan world = w' := by
      rw [finish, done]
    constructor
    · rw [← returned]
      exact .leave
    · rw [← before]
      have books : Books this (loan :: Machine.resumes fs) world := books
      rcases h : Machine.resumes fs with _ | _
      · rw [h] at books
        exact (Lending.settled books done).2
      · rw [h] at books
        exact False.elim books

def signed (this : ℕ) : Env this := ⟨0, fun a => a ≠ this, by simp⟩

/-- At first the admin `0` has 1000 of the token `7`, and the borrower `5` has 5. -/
def seed : Tokens ℕ := fun token a =>
  if token = 7 then (if a = 0 then 1000 else if a = 5 then 5 else 0) else 0

theorem seed_nonneg (token : ℕ) : 0 ≤ seed token 9 := by
  unfold seed
  split_ifs <;> simp

/-- A loan of 500 at one percent, repaid in the callback. -/
theorem repaidLoan_safe :
    ∃ (m : State ℕ) (f : Frame (World ℕ) (Loan ℕ)) (loan : Loan ℕ) (w' : World ℕ),
      Reachable (Initial 9) (Step 9 0) m ∧ m.frames = [f] ∧ f.resume = some loan ∧
      Locked 0 9 m.world ∧ settle 9 loan m.world = .ok (5, w') ∧
      Step 9 0 m .leave ⟨w', []⟩ ∧ balance 9 f.saved = 1000 ∧
      balance 9 f.saved + 5 ≤ balance 9 w' := by
  obtain ⟨w₁, created, w₂, deposited, w₃, priced, ⟨loan, w₄⟩, lent, tokens, moved, ⟨_, w'⟩, done,
      rfl, start⟩ :
      ∃ w₁, initializeVault 0 7 { tokens := seed } = .ok w₁ ∧
      ∃ w₂, deposit (signed 9) 0 1000 w₁ = .ok w₂ ∧
      ∃ w₃, setFee (signed 9) 100 w₂ = .ok w₃ ∧
      ∃ lent, lend 0 w₃ (.flashLoan (signed 9) 4 5 500) = .ok lent ∧
      ∃ tokens, (lent.2.tokens.transfer 7 5 9 505 : Outcome Error _) = .ok tokens ∧
      ∃ done, settle 9 lent.1 { lent.2 with tokens } = .ok done ∧
        done.1 = 5 ∧ balance 9 w₃ = 1000 := by
    decide +kernel
  have reach : Reachable (Initial 9) (Step 9 0) ⟨{ w₄ with tokens }, [⟨w₃, some loan⟩]⟩ := by
    refine Reachable.next (l := .call (.elsewhere tokens)) ?_ (.call ⟨?_, rfl⟩)
    · refine Reachable.next (l := .start (.flashLoan (signed 9) 4 5 500)) ?_ (.start lent)
      refine Reachable.next (l := .call (.setFee (signed 9) 100)) ?_ (.call priced)
      refine Reachable.next (l := .call (.deposit (signed 9) 0 1000)) ?_ (.call deposited)
      refine Reachable.next (l := .call (.initializeVault 0 7)) ?_ (.call created)
      exact .start ⟨seed, seed_nonneg, rfl⟩
    · exact transfer_grows (by decide) moved
  obtain ⟨_, locked, repaid⟩ := loans_safe reach
  obtain ⟨left, kept⟩ := repaid _ _ loan 5 w' rfl rfl done
  exact ⟨_, _, loan, w', reach, rfl, rfl, locked (by simp [Machine.resumes]), done, left, start,
    kept⟩

end FlashLoanVault
