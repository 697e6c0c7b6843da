import Perigee.NoncePartition.Lanes
import Perigee.Soroban.Run

/-!
# Nonces are assigned once

`assign_nonce` looks for the first nonce from the mark on that is neither in flight nor being
filled.  It does not ask whether the nonce is committed, so it returns a committed one when all
nonces between the mark and that one are held.  `Clear` excludes exactly this.
-/

namespace NoncePartition

open Soroban Isolation

/-! ## The loops -/

theorem saturatingSucc_of_lt {n : ℕ} (h : n < nonceMax) : saturatingSucc n = n + 1 :=
  min_eq_left h

theorem saturatingSucc_le (n : ℕ) : saturatingSucc n ≤ nonceMax := min_le_right _ _

section Loops

variable {inflight filling : Finset ℕ} {fuel candidate nonce : ℕ}

theorem firstFree_spec (range : candidate ≤ nonceMax)
    (h : firstFree inflight filling fuel candidate = some nonce) :
    nonce ∉ inflight ∧ nonce ∉ filling ∧ candidate ≤ nonce ∧ nonce ≤ nonceMax ∧
      ∀ x, candidate ≤ x → x < nonce → x ∈ inflight ∨ x ∈ filling := by
  induction fuel generalizing candidate with
  | zero => cases h
  | succ _ ih =>
    unfold firstFree at h
    split_ifs at h with taken
    · obtain ⟨free, free', after, bound, between⟩ := ih (saturatingSucc_le _) h
      refine ⟨free, free', ?_, bound, fun x ge lt => ?_⟩
      · unfold saturatingSucc at after
        omega
      · by_cases first : x = candidate
        · exact first ▸ taken
        · refine between x ?_ lt
          unfold saturatingSucc
          omega
    · obtain rfl := Option.some.inj h
      rw [not_or] at taken
      exact ⟨taken.1, taken.2, le_rfl, range, fun x ge lt => absurd lt (not_lt.2 ge)⟩

theorem firstFree_returns (range : candidate ≤ nonceMax) (free : nonceMax ∉ inflight ∪ filling)
    (enough : ((inflight ∪ filling).filter (candidate ≤ ·)).card < fuel) :
    ∃ nonce, firstFree inflight filling fuel candidate = some nonce := by
  induction fuel generalizing candidate with
  | zero => exact absurd enough (Nat.not_lt_zero _)
  | succ _ ih =>
    unfold firstFree
    split_ifs with taken
    · have held : candidate ∈ inflight ∪ filling := Finset.mem_union.2 taken
      have below : candidate < nonceMax := lt_of_le_of_ne range fun h => free (h ▸ held)
      rw [saturatingSucc_of_lt below]
      refine ih below (lt_of_lt_of_le (Finset.card_lt_card ?_) (Nat.le_of_lt_succ enough))
      refine Finset.ssubset_iff_of_subset ?_ |>.2 ⟨candidate, ?_, ?_⟩
      · exact Finset.monotone_filter_right _ fun x _ h => Nat.le_of_succ_le h
      · exact Finset.mem_filter.2 ⟨held, le_rfl⟩
      · exact fun h => absurd (Finset.mem_filter.1 h).2 (Nat.not_succ_le_self _)
    · exact ⟨candidate, rfl⟩

theorem advance_eq_firstFree (committedSet : Finset ℕ) (fuel committed : ℕ) :
    (advance committedSet fuel committed).map saturatingSucc =
      firstFree committedSet ∅ fuel (saturatingSucc committed) := by
  induction fuel generalizing committed with
  | zero => rfl
  | succ _ ih =>
    unfold advance firstFree
    by_cases h : saturatingSucc committed ∈ committedSet
    · rw [if_pos h, if_pos (.inl h), ih]
    · rw [if_neg h, if_neg (by simp [h]), Option.map_some]

end Loops

def noteAssigned (assigned : Finset ℕ) : Reply → Finset ℕ
  | some (.ok nonce) => insert nonce assigned
  | _ => assigned

namespace Lane

variable {l l' : Lane} {nonce : ℕ} {reply : Reply} {request : Request}

theorem nextExpected_le (l : Lane) : l.nextExpected ≤ nonceMax := by
  unfold nextExpected
  cases l.committed with
  | none => exact Nat.zero_le _
  | some c => exact saturatingSucc_le c

theorem assign_ok (h : l.assign = some (reply, l')) :
    ∃ nonce, nonce ∉ l.held ∧ l.nextExpected ≤ nonce ∧ nonce ≤ nonceMax ∧
      (∀ x, l.nextExpected ≤ x → x < nonce → x ∈ l.held) ∧
      (nonce = nonceMax ∧ reply = some (.error exhaustedMessage) ∧
          l' = { l with exhausted := true } ∨
        nonce < nonceMax ∧ reply = some (.ok nonce) ∧
          l' = { l with inflight := insert nonce l.inflight }) := by
  obtain ⟨nonce, found, eq⟩ := Option.map_eq_some_iff.1 h
  obtain ⟨free, free', after, bound, between⟩ := firstFree_spec l.nextExpected_le found
  refine ⟨nonce, ?_, after, bound, fun x ge lt => Finset.mem_union.2 (between x ge lt), ?_⟩
  · exact fun held => (Finset.mem_union.1 held).elim free free'
  · split_ifs at eq with last
    · obtain ⟨rfl, rfl⟩ := Prod.mk.inj eq
      exact .inl ⟨last, rfl, rfl⟩
    · obtain ⟨rfl, rfl⟩ := Prod.mk.inj eq
      exact .inr ⟨lt_of_le_of_ne bound last, rfl, rfl⟩

theorem commit_ok (h : l.commit nonce = some l') :
    l'.inflight = l.inflight.erase nonce ∧ l'.filling = l.filling.erase nonce ∧
      l'.committedSet = insert nonce l.committedSet ∧ l'.nextExpected ∉ l'.committedSet ∧
      saturatingSucc (l.committed.getD 0) ≤ l'.nextExpected ∧
      ∀ x, saturatingSucc (l.committed.getD 0) ≤ x → x < l'.nextExpected →
        x ∈ l'.committedSet := by
  obtain ⟨committed, found, rfl⟩ := Option.map_eq_some_iff.1 h
  have mark := advance_eq_firstFree (insert nonce l.committedSet)
    ((insert nonce l.committedSet).card + 1) (l.committed.getD 0)
  rw [found] at mark
  obtain ⟨missing, -, after, -, between⟩ := firstFree_spec (saturatingSucc_le _) mark.symm
  refine ⟨rfl, rfl, rfl, missing, after, fun x ge lt => ?_⟩
  exact (between x ge lt).resolve_right (Finset.notMem_empty x)

/-- Between the mark and every nonce committed above it, some nonce is not held. -/
def Clear (l : Lane) : Prop :=
  ∀ nonce ∈ l.committedSet, l.nextExpected ≤ nonce →
    ∃ free, l.nextExpected ≤ free ∧ free < nonce ∧ free ∉ l.held

instance (l : Lane) : Decidable l.Clear :=
  decidable_of_iff (∀ nonce ∈ l.committedSet, l.nextExpected ≤ nonce →
      ∃ free ∈ Finset.range nonce, l.nextExpected ≤ free ∧ free ∉ l.held) <| by
    simp only [Clear, Finset.mem_range]
    exact forall₃_congr fun _ _ _ => exists_congr fun _ => and_left_comm

/-- Held and committed nonces were assigned, none of them is both, and the last nonce is neither. -/
structure Consistent (l : Lane) (assigned : Finset ℕ) : Prop where
  below : ∀ nonce ∈ assigned, nonce < nonceMax
  held : ∀ nonce ∈ l.held, nonce ∈ assigned
  committed : ∀ nonce ∈ l.committedSet, nonce ∈ assigned
  apart : ∀ nonce ∈ l.committedSet, nonce ∉ l.held

namespace Consistent

variable {assigned : Finset ℕ}

/-- An assignment from a clear lane returns a nonce that is not committed, and only from one. -/
theorem clear_iff (consistent : l.Consistent assigned) (h : l.assign = some (reply, l')) :
    l.Clear ↔ ∀ nonce, reply = some (.ok nonce) → nonce ∉ l.committedSet := by
  obtain ⟨nonce, free, after, _, between, result⟩ := assign_ok h
  constructor
  · rintro clear _ rfl committed
    obtain ⟨-, reply, -⟩ | ⟨-, reply, -⟩ := result
    · cases reply
    · cases reply
      obtain ⟨x, ge, lt, unheld⟩ := clear _ committed after
      exact unheld (between x ge lt)
  · -- The nonce found is the free one: it is at most every committed nonce above the mark.
    intro fresh m hm above
    refine ⟨nonce, after, lt_of_le_of_ne (not_lt.1 fun lt => ?_) ?_, free⟩
    · exact consistent.apart m hm (between m above lt)
    · rintro rfl
      obtain ⟨rfl, -, -⟩ | ⟨-, reply, -⟩ := result
      · exact absurd (consistent.below _ (consistent.committed _ hm)) (lt_irrefl _)
      · exact fresh _ reply hm

theorem assign (consistent : l.Consistent assigned) (h : l.assign = some (reply, l'))
    (fresh : ∀ nonce, reply = some (.ok nonce) → nonce ∉ l.committedSet) :
    l'.Consistent (noteAssigned assigned reply) := by
  obtain ⟨nonce, _, -, -, -, result⟩ := assign_ok h
  obtain ⟨-, rfl, rfl⟩ | ⟨below, rfl, rfl⟩ := result
  · exact ⟨consistent.below, consistent.held, consistent.committed, consistent.apart⟩
  · have held : ∀ n, n ∈ (insert nonce l.inflight) ∪ l.filling ↔ n = nonce ∨ n ∈ l.held := by
      intro n
      rw [Finset.insert_union, Finset.mem_insert, Lane.held]
    have missing := fresh nonce rfl
    refine ⟨?_, fun n hn => ?_, fun n hn => ?_, fun n hn => ?_⟩
    · exact Finset.forall_mem_insert .. |>.2 ⟨below, consistent.below⟩
    · rcases (held n).1 hn with rfl | hn
      · exact Finset.mem_insert_self _ _
      · exact Finset.mem_insert_of_mem (consistent.held n hn)
    · exact Finset.mem_insert_of_mem (consistent.committed n hn)
    · rintro bad
      rcases (held n).1 bad with rfl | bad
      · exact missing hn
      · exact consistent.apart n hn bad

theorem settle (consistent : l.Consistent assigned) (mem : nonce ∈ assigned)
    (pending : nonce ∉ l.committedSet)
    (request_eq : request = .commitNonce nonce ∨ request = .releaseNonce nonce ∨
      request = .fillGap nonce)
    (h : l.exec request = some (reply, l')) : l'.Consistent (noteAssigned assigned reply) := by
  have kept : ∀ {n : ℕ}, n ∈ l.inflight.erase nonce ∪ l.filling.erase nonce →
      n ≠ nonce ∧ n ∈ l.held := by
    intro n hn
    rw [← Finset.erase_union_distrib] at hn
    exact Finset.mem_erase.1 hn
  obtain rfl | rfl | rfl := request_eq
  · obtain ⟨l₁, commits, eq⟩ := Option.map_eq_some_iff.1 h
    obtain ⟨rfl, rfl⟩ := Prod.mk.inj eq
    obtain ⟨inflight, filling, committedSet, -, -, -⟩ := commit_ok commits
    have held : l₁.held = l.inflight.erase nonce ∪ l.filling.erase nonce := by
      rw [Lane.held, inflight, filling]
    refine ⟨consistent.below, fun n hn => ?_, fun n hn => ?_, fun n hn => ?_⟩
    · exact consistent.held n (kept (held ▸ hn)).2
    · rw [committedSet] at hn
      rcases Finset.mem_insert.1 hn with rfl | hn
      · exact mem
      · exact consistent.committed n hn
    · rw [committedSet] at hn
      intro bad
      obtain ⟨ne, bad⟩ := kept (held ▸ bad)
      exact consistent.apart n ((Finset.mem_insert.1 hn).resolve_left ne) bad
  · obtain ⟨rfl, rfl⟩ := Prod.mk.inj (Option.some.inj h)
    exact ⟨consistent.below, fun n hn => consistent.held n (kept hn).2, consistent.committed,
      fun n hn bad => consistent.apart n hn (kept bad).2⟩
  · obtain ⟨rfl, rfl⟩ := Prod.mk.inj (Option.some.inj h)
    have moved : ∀ {n : ℕ}, n ∈ l.inflight.erase nonce ∪ insert nonce l.filling →
        n = nonce ∨ n ∈ l.held := by
      intro n hn
      simp only [Finset.mem_union, Finset.mem_erase, Finset.mem_insert] at hn
      rw [Lane.held, Finset.mem_union]
      tauto
    refine ⟨consistent.below, fun n hn => ?_, consistent.committed, fun n hn bad => ?_⟩
    · rcases moved hn with rfl | hn
      · exact mem
      · exact consistent.held n hn
    · rcases moved bad with rfl | bad
      · exact pending hn
      · exact consistent.apart n hn bad

theorem returns (consistent : l.Consistent assigned)
    (request_ok : ∀ nonce, request = .commitNonce nonce → nonce ∈ assigned) :
    (l.exec request).isSome := by
  have assigns : l.assign.isSome := by
    have free : nonceMax ∉ l.inflight ∪ l.filling := fun h =>
      absurd (consistent.below _ (consistent.held _ h)) (lt_irrefl _)
    obtain ⟨nonce, found⟩ := firstFree_returns l.nextExpected_le free
      (Nat.lt_succ_of_le (Finset.card_filter_le _ _))
    rw [Lane.assign, Option.isSome_map]
    exact Option.isSome_iff_exists.2 ⟨nonce, found⟩
  cases request with
  | assignNonce | nextNonce => exact assigns
  | releaseNonce | fillGap => rfl
  | commitNonce nonce =>
    have free : nonceMax ∉ insert nonce l.committedSet ∪ ∅ := by
      intro h
      rw [Finset.union_empty, Finset.mem_insert] at h
      have mem : nonceMax ∈ assigned := h.elim (fun h => h ▸ request_ok nonce rfl)
        (consistent.committed _)
      exact absurd (consistent.below _ mem) (lt_irrefl _)
    obtain ⟨_, found⟩ := firstFree_returns (saturatingSucc_le (l.committed.getD 0)) free
      (Nat.lt_succ_of_le (Finset.card_filter_le _ _))
    rw [Finset.union_empty, ← advance_eq_firstFree] at found
    obtain ⟨committed, found, -⟩ := Option.map_eq_some_iff.1 found
    rw [Lane.exec, Option.isSome_map, commit, Option.isSome_map]
    exact Option.isSome_iff_exists.2 ⟨committed, found⟩

end Consistent

end Lane

/-! ## Runs -/

section Runs

variable {Domain : Type} [DecidableEq Domain]

/-- A partition with the nonces that every domain was ever assigned, and those that it released and
was not assigned again. -/
structure Tracked (Domain : Type) where
  partition : Partition Domain := {}
  assigned : Domain → Finset ℕ := fun _ => ∅
  released : Domain → Finset ℕ := fun _ => ∅

abbrev Exchange (Domain : Type) := (Domain × Request) × Reply

def noteReleased (released : Finset ℕ) (request : Request) : Reply → Finset ℕ
  | some (.ok nonce) => released.erase nonce
  | _ => match request with
    | .releaseNonce nonce => insert nonce released
    | _ => released

/-- Run a request, keeping the history of its domain. -/
def track (s : Tracked Domain) (domain : Domain) (request : Request) :
    Option (Reply × Tracked Domain) :=
  (exec s.partition domain request).map fun r => (r.1,
    { partition := r.2
      assigned := Function.update s.assigned domain (noteAssigned (s.assigned domain) r.1)
      released :=
        Function.update s.released domain (noteReleased (s.released domain) request r.1) })

def Step (s : Tracked Domain) (exchange : Exchange Domain) (s' : Tracked Domain) : Prop :=
  track s exchange.1.1 exchange.1.2 = some (exchange.2, s')

/-- Commits, releases and fills are of nonces that were assigned and are not committed. -/
def OnPending (s : Tracked Domain) (exchange : Exchange Domain) : Prop :=
  match exchange.1.2 with
  | .commitNonce nonce | .releaseNonce nonce | .fillGap nonce =>
      nonce ∈ s.assigned exchange.1.1 ∧ nonce ∉ (lane s.partition exchange.1.1).committedSet
  | _ => True

/-- A nonce is assigned from a lane that is clear. -/
def AssignsClear (s : Tracked Domain) (exchange : Exchange Domain) : Prop :=
  match exchange.1.2 with
  | .assignNonce | .nextNonce => (lane s.partition exchange.1.1).Clear
  | _ => True

/-- A nonce that is returned was neither committed nor in flight nor being filled. -/
def AssignsFresh (s : Tracked Domain) (exchange : Exchange Domain) : Prop :=
  ∀ nonce, exchange.2 = some (.ok nonce) →
    nonce ∉ (lane s.partition exchange.1.1).committedSet ∧
    nonce ∉ (lane s.partition exchange.1.1).inflight ∧
    nonce ∉ (lane s.partition exchange.1.1).filling

variable {s s' : Tracked Domain} {exchange : Exchange Domain}

theorem Step.exec (step : Step s exchange s') :
    (lane s.partition exchange.1.1).exec exchange.1.2 =
        some (exchange.2, lane s'.partition exchange.1.1) ∧
      (∀ other ≠ exchange.1.1, lane s'.partition other = lane s.partition other) ∧
      s'.assigned = Function.update s.assigned exchange.1.1
        (noteAssigned (s.assigned exchange.1.1) exchange.2) ∧
      s'.released = Function.update s.released exchange.1.1
        (noteReleased (s.released exchange.1.1) exchange.1.2 exchange.2) := by
  obtain ⟨⟨_, _⟩, h, eq⟩ := Option.map_eq_some_iff.1 step
  obtain ⟨reply_eq, rfl⟩ := Prod.mk.inj eq
  subst reply_eq
  exact ⟨exec_own h, fun _ ne => exec_other h ne, rfl, rfl⟩

/-- Every lane is consistent with the nonces assigned to its domain. -/
def Consistent (s : Tracked Domain) : Prop :=
  ∀ domain, (lane s.partition domain).Consistent (s.assigned domain)

theorem assignsClear_iff (consistent : Consistent s) (step : Step s exchange s') :
    AssignsClear s exchange ↔ AssignsFresh s exchange := by
  obtain ⟨run, -⟩ := step.exec
  obtain ⟨⟨domain, request⟩, reply⟩ := exchange
  cases request with
  | assignNonce | nextNonce =>
    have free : ∀ nonce, reply = some (.ok nonce) → nonce ∉ (lane s.partition domain).held := by
      obtain ⟨nonce, free, -, -, -, result⟩ := Lane.assign_ok run
      rintro n rfl
      obtain ⟨-, eq, -⟩ | ⟨-, eq, -⟩ := result
      · cases eq
      · cases eq
        exact free
    refine ((consistent domain).clear_iff run).trans (forall₂_congr fun nonce eq => ?_)
    have unheld := free nonce eq
    rw [Lane.held, Finset.mem_union, not_or] at unheld
    exact (and_iff_left unheld).symm
  | commitNonce =>
    obtain ⟨_, -, eq⟩ := Option.map_eq_some_iff.1 run
    obtain ⟨rfl, -⟩ := Prod.mk.inj eq
    exact iff_of_true trivial fun _ h => nomatch h
  | releaseNonce | fillGap =>
    obtain ⟨rfl, -⟩ := Prod.mk.inj (Option.some.inj run)
    exact iff_of_true trivial fun _ h => nomatch h

theorem Consistent.step (consistent : Consistent s) (pending : OnPending s exchange)
    (step : Step s exchange s') (fresh : AssignsFresh s exchange) : Consistent s' := by
  obtain ⟨run, others, assigned, -⟩ := step.exec
  obtain ⟨⟨domain, request⟩, reply⟩ := exchange
  intro other
  rw [assigned]
  by_cases own : other = domain
  · subst own
    rw [Function.update_self]
    cases request with
    | assignNonce | nextNonce =>
      exact (consistent other).assign run fun nonce eq => (fresh nonce eq).1
    | commitNonce =>
      exact (consistent other).settle pending.1 pending.2 (.inl rfl) run
    | releaseNonce =>
      exact (consistent other).settle pending.1 pending.2 (.inr (.inl rfl)) run
    | fillGap =>
      exact (consistent other).settle pending.1 pending.2 (.inr (.inr rfl)) run
  · rw [Function.update_of_ne own, others other own]
    exact consistent other

theorem consistent_new : Consistent ({} : Tracked Domain) := by
  intro domain
  refine ⟨?_, ?_, ?_, ?_⟩ <;> exact fun _ h => absurd h (Finset.notMem_empty _)

/-- From a new partition, the runs that assign nonces from clear lanes only are exactly the runs
that never return a nonce that is committed, in flight or being filled.  After each of them every
request returns.  And neither the replies to a domain nor its lane depend on what is asked of the
others. -/
theorem assigned_fresh_iff {exchanges : List (Exchange Domain)} {s : Tracked Domain} :
    (Run (Guarded AssignsClear (Guarded OnPending Step)) {} exchanges s ↔
        Run (Guarded AssignsFresh (Guarded OnPending Step)) {} exchanges s) ∧
      (Run (Guarded AssignsFresh (Guarded OnPending Step)) {} exchanges s →
        ∀ domain request, OnPending s ((domain, request), none) →
          (exec s.partition domain request).isSome) ∧
      ∀ (domain : Domain) (p : Partition Domain) (asked : List (Domain × Request)),
        outputs respond (askedOf domain) p asked =
          outputs respond (askedOf domain) p (asked.filter (askedOf domain)) ∧
        lane (final respond p asked) domain =
          lane (final respond p (asked.filter (askedOf domain))) domain := by
  have keep : ∀ (s₁ : Tracked Domain) exchange s₂, Consistent s₁ →
      Guarded OnPending Step s₁ exchange s₂ → AssignsFresh s₁ exchange → Consistent s₂ :=
    fun _ _ _ consistent step fresh => consistent.step step.1 step.2 fresh
  refine ⟨?_, fun run domain request pending => ?_, fun domain p asked => ?_⟩
  · exact Run.guarded_iff_guarded Consistent consistent_new
      (fun _ _ _ consistent step => assignsClear_iff consistent step.2) keep
  · have consistent : Consistent s := run.invariant consistent_new
      fun s₁ exchange s₂ consistent step => keep s₁ exchange s₂ consistent step.2 step.1
    have returns := (consistent domain).returns fun nonce (eq : request = .commitNonce nonce) => by
      subst eq
      exact pending.1
    rwa [← exec_lane, Option.isSome_map] at returns
  · have isolated := domains_isolated domain
    exact ⟨isolated.outputs_eq rfl asked, isolated.view_final rfl asked⟩

end Runs

/-! ## Runs with one domain -/

instance (s : Tracked ℕ) (exchange : Exchange ℕ) : Decidable (OnPending s exchange) :=
  match exchange with
  | ((domain, .commitNonce nonce), _) | ((domain, .releaseNonce nonce), _)
  | ((domain, .fillGap nonce), _) => inferInstanceAs (Decidable
      (nonce ∈ s.assigned domain ∧ nonce ∉ (lane s.partition domain).committedSet))
  | ((_, .assignNonce), _) | ((_, .nextNonce), _) => .isTrue trivial

instance (s : Tracked ℕ) (exchange : Exchange ℕ) : Decidable (AssignsClear s exchange) :=
  match exchange with
  | ((domain, .assignNonce), _) | ((domain, .nextNonce), _) =>
      inferInstanceAs (Decidable (lane s.partition domain).Clear)
  | ((_, .commitNonce _), _) | ((_, .releaseNonce _), _) | ((_, .fillGap _), _) => .isTrue trivial

/-- Run a request and check that the reply is the one expected. -/
def replay (s : Tracked ℕ) (exchange : Exchange ℕ) : Outcome Unit (Tracked ℕ) :=
  match track s exchange.1.1 exchange.1.2 with
  | some (reply, s') => if reply = exchange.2 then .ok s' else .error .trap
  | none => .error .trap

theorem replay_step {s s' : Tracked ℕ} {exchange : Exchange ℕ} (h : replay s exchange = .ok s') :
    Step s exchange s' := by
  unfold replay at h
  split at h
  · rename_i reply s₁ found
    split_ifs at h with eq
    obtain rfl := Except.ok.inj h
    rw [Step, found, eq]
  · cases h

def assigns (nonce : ℕ) : Exchange ℕ := ((7, .assignNonce), some (.ok nonce))

/-- Nonce 1 is released while 0 and 2 are committed, and assigned again. -/
theorem released_nonce_assigned_again :
    ∃ exchanges s, Run (Guarded AssignsFresh (Guarded OnPending Step)) {} exchanges s ∧
      (lane s.partition 7).inflight = {1} := by
  obtain ⟨s, run, inflight⟩ : ∃ s : Tracked ℕ,
      Run (Guarded AssignsClear (Guarded OnPending Step)) {} [assigns 0, assigns 1, assigns 2,
        ((7, .commitNonce 2), none), ((7, .commitNonce 0), none), ((7, .releaseNonce 1), none),
        assigns 1] s ∧ (lane s.partition 7).inflight = {1} :=
    exists_guarded_run (fun _ _ _ step => (execIf_ok_iff.1 step).imp_right replay_step)
      (by decide +kernel)
  exact ⟨_, s, assigned_fresh_iff.1.1 run, inflight⟩

/-- Nonces 0, 1 and 2 are assigned and 2 is committed; the next assignment returns 2 again. -/
theorem committed_nonce_assigned :
    ∃ s s' : Tracked ℕ, Reachable (· = {}) (Guarded OnPending Step) s ∧ Step s (assigns 2) s' ∧
      2 ∈ (lane s.partition 7).committedSet := by
  obtain ⟨s, run, s', again, committed⟩ : ∃ s : Tracked ℕ, Run (Guarded OnPending Step) {}
        [assigns 0, assigns 1, assigns 2, ((7, .commitNonce 2), none)] s ∧
      ∃ s', replay s (assigns 2) = .ok s' ∧ 2 ∈ (lane s.partition 7).committedSet :=
    exists_guarded_run (fun _ _ _ => replay_step) (by decide +kernel)
  exact ⟨s, s', ⟨{}, _, rfl, run⟩, replay_step again, committed⟩

end NoncePartition
