import Perigee.NoncePartition.Uniqueness

/-!
# The high-water mark

The mark of a domain should stand just below the first nonce that is not committed.  The first
commit of a domain puts the mark at 0 or above whether or not nonce 0 is among the committed ones,
so the law needs nonce 0 to be committed first.  It also needs gaps to be filled only where
something is held, and nonces to be assigned from clear lanes (`high_water_mark`).
-/

namespace NoncePartition

open Soroban

namespace Lane

variable {l l' : Lane} {nonce : ℕ} {reply : Reply} {request : Request}
  {assigned released : Finset ℕ}

/-- The mark is at the first nonce that is not committed, and the nonces held are those assigned,
not committed and not released. -/
structure Marked (l : Lane) (assigned released : Finset ℕ) : Prop where
  below : ∀ nonce ∈ assigned, nonce < nonceMax
  committed : ∀ nonce ∈ l.committedSet, nonce ∈ assigned
  start : l.committed = none → l.committedSet = ∅
  missing : l.nextExpected ∉ l.committedSet
  through : ∀ nonce < l.nextExpected, nonce ∈ l.committedSet
  held : ∀ nonce, nonce ∈ l.held ↔
    nonce ∈ assigned ∧ nonce ∉ l.committedSet ∧ nonce ∉ released
  once : Disjoint l.inflight l.filling

namespace Marked

variable (marked : l.Marked assigned released)

include marked

theorem consistent : l.Consistent assigned where
  below := marked.below
  held nonce h := ((marked.held nonce).1 h).1
  committed := marked.committed
  apart nonce h held := ((marked.held nonce).1 held).2.1 h

theorem assign (clear : l.Clear) (h : l.assign = some (reply, l')) :
    l'.Marked (noteAssigned assigned reply) (noteReleased released .assignNonce reply) := by
  have fresh := (marked.consistent.clear_iff h).1 clear
  obtain ⟨nonce, free, -, -, -, result⟩ := assign_ok h
  obtain ⟨-, rfl, rfl⟩ | ⟨below, rfl, rfl⟩ := result
  · exact ⟨marked.below, marked.committed, marked.start, marked.missing, marked.through,
      marked.held, marked.once⟩
  · have missing := fresh nonce rfl
    rw [Lane.held, Finset.mem_union, not_or] at free
    refine ⟨?_, ?_, marked.start, marked.missing, marked.through, fun n => ?_, ?_⟩
    · exact Finset.forall_mem_insert .. |>.2 ⟨below, marked.below⟩
    · exact fun n hn => Finset.mem_insert_of_mem (marked.committed n hn)
    · have before := marked.held n
      simp only [Lane.held, noteAssigned, noteReleased, Finset.mem_union, Finset.mem_insert,
        Finset.mem_erase] at before ⊢
      by_cases new : n = nonce
      · subst new
        simp [missing]
      · simp only [new, false_or, ne_eq, not_false_eq_true, true_and, before]
    · exact Finset.disjoint_insert_left.2 ⟨free.2, marked.once⟩

theorem commit (mem : nonce ∈ assigned) (first : nonce = 0 ∨ 0 ∈ l.committedSet)
    (h : l.commit nonce = some l') : l'.Marked assigned released := by
  obtain ⟨inflight, filling, committedSet, missing, -, between⟩ := commit_ok h
  have some' : ∃ c, l'.committed = some c := by
    obtain ⟨c, -, rfl⟩ := Option.map_eq_some_iff.1 h
    exact ⟨c, rfl⟩
  obtain ⟨c, hc⟩ := some'
  refine ⟨marked.below, fun n hn => ?_, fun none => ?_, missing, fun n lt => ?_, fun n => ?_, ?_⟩
  · rw [committedSet] at hn
    rcases Finset.mem_insert.1 hn with rfl | hn
    · exact mem
    · exact marked.committed n hn
  · rw [hc] at none
    cases none
  · -- Up to the old mark everything was committed; from it on the loop checks.
    by_cases new : saturatingSucc (l.committed.getD 0) ≤ n
    · exact between n new lt
    rw [committedSet]
    cases before : l.committed with
    | some c =>
      have mark : l.nextExpected = saturatingSucc c := by
        rw [nextExpected, before, Option.elim_some]
      rw [before, Option.getD_some, ← mark] at new
      exact Finset.mem_insert_of_mem (marked.through n (not_le.1 new))
    | none =>
      rw [before] at new
      have zero : n = 0 := Nat.lt_one_iff.1 (not_le.1 new)
      rw [marked.start before] at first
      rw [zero, first.resolve_right (Finset.notMem_empty 0)]
      exact Finset.mem_insert_self _ _
  · have before := marked.held n
    simp only [Lane.held, inflight, filling, committedSet, Finset.mem_union, Finset.mem_erase,
      Finset.mem_insert] at before ⊢
    tauto
  · rw [inflight, filling]
    exact marked.once.mono (Finset.erase_subset _ _) (Finset.erase_subset _ _)

theorem detectGaps_eq :
    l.detectGaps = (((assigned \ l.committedSet) \ released).filter
      fun nonce => ∃ committed ∈ l.committedSet, nonce < committed).sort := by
  have held : (assigned \ l.committedSet) \ released = l.held := by
    ext n
    rw [marked.held n, Finset.mem_sdiff, Finset.mem_sdiff, and_assoc]
  rw [held, detectGaps]
  split_ifs with some'
  · have whole : l.inflight.val + l.filling.val = l.held.val := by
      rw [Lane.held, ← Finset.disjUnion_eq_union _ _ marked.once]
      rfl
    rw [whole, ← Finset.filter_val, Finset.sort_val]
    congr 1
    refine Finset.filter_congr fun n _ => ?_
    constructor
    · exact fun lt => ⟨_, Finset.max'_mem _ some', lt⟩
    · rintro ⟨m, hm, lt⟩
      exact lt.trans_le (Finset.le_max' _ m hm)
  · rw [Finset.not_nonempty_iff_eq_empty] at some'
    rw [some']
    simp

end Marked

end Lane

/-! ## Runs -/

section Runs

variable {Domain : Type} [DecidableEq Domain]

/-- Commits are of nonces that were assigned. -/
def CommitsAssigned (s : Tracked Domain) (exchange : Exchange Domain) : Prop :=
  match exchange.1.2 with
  | .commitNonce nonce => nonce ∈ s.assigned exchange.1.1
  | _ => True

/-- Nonces of the domain are assigned from a clear lane, nonce 0 is committed first, and gaps are
filled only where a nonce is held. -/
def InOrder (domain : Domain) (s : Tracked Domain) (exchange : Exchange Domain) : Prop :=
  exchange.1.1 = domain → match exchange.1.2 with
    | .assignNonce | .nextNonce => (lane s.partition domain).Clear
    | .commitNonce nonce => nonce = 0 ∨ 0 ∈ (lane s.partition domain).committedSet
    | .releaseNonce _ => True
    | .fillGap nonce => nonce ∈ (lane s.partition domain).held

/-- The next nonce expected is the least that is not committed, and the gaps are the nonces
assigned, not committed and not released below the largest committed one, in increasing order. -/
def HighWater (domain : Domain) (s : Tracked Domain) : Prop :=
  IsLeast {nonce | nonce ∉ (lane s.partition domain).committedSet}
      (nextExpected s.partition domain) ∧
    detectGaps s.partition domain =
      (((s.assigned domain \ (lane s.partition domain).committedSet) \ s.released domain).filter
        fun nonce => ∃ committed ∈ (lane s.partition domain).committedSet, nonce < committed).sort

theorem marked_step {s s' : Tracked Domain} {exchange : Exchange Domain} {domain : Domain}
    (marked : (lane s.partition domain).Marked (s.assigned domain) (s.released domain))
    (assigned : CommitsAssigned s exchange) (inOrder : InOrder domain s exchange)
    (step : Step s exchange s') :
    (lane s'.partition domain).Marked (s'.assigned domain) (s'.released domain) := by
  obtain ⟨run, others, noted, noted'⟩ := step.exec
  obtain ⟨⟨asked, request⟩, reply⟩ := exchange
  rw [noted, noted']
  by_cases own : domain = asked
  · subst own
    rw [Function.update_self, Function.update_self]
    replace inOrder := inOrder rfl
    cases request with
    | assignNonce =>
      exact marked.assign inOrder run
    | nextNonce =>
      have next := marked.assign inOrder run
      rcases reply with _ | _ | _ <;> exact next
    | commitNonce =>
      obtain ⟨_, commits, eq⟩ := Option.map_eq_some_iff.1 run
      obtain ⟨rfl, rfl⟩ := Prod.mk.inj eq
      exact marked.commit assigned inOrder commits
    | releaseNonce =>
      obtain ⟨rfl, eq⟩ := Prod.mk.inj (Option.some.inj run)
      rw [← eq]
      refine ⟨marked.below, marked.committed, marked.start, marked.missing, marked.through,
        fun n => ?_, marked.once.mono (Finset.erase_subset _ _) (Finset.erase_subset _ _)⟩
      have before := marked.held n
      simp only [Lane.held, noteReleased, Finset.mem_union, Finset.mem_erase,
        Finset.mem_insert] at before ⊢
      tauto
    | fillGap nonce =>
      obtain ⟨rfl, eq⟩ := Prod.mk.inj (Option.some.inj run)
      rw [← eq]
      refine ⟨marked.below, marked.committed, marked.start, marked.missing, marked.through,
        fun n => ?_, ?_⟩
      · have before := marked.held n
        simp only [Lane.held, noteReleased, noteAssigned, Finset.mem_union, Finset.mem_erase,
          Finset.mem_insert] at before inOrder ⊢
        by_cases here : n = nonce
        · subst here
          simp only [inOrder, true_iff] at before
          simp [before]
        · simp only [here, ne_eq, not_false_eq_true, true_and, false_or, before]
      · rw [Finset.disjoint_insert_right]
        exact ⟨Finset.notMem_erase _ _, marked.once.mono_left (Finset.erase_subset _ _)⟩
  · rw [Function.update_of_ne own, Function.update_of_ne own, others domain own]
    exact marked

theorem marked_new (domain : Domain) :
    (lane ({} : Tracked Domain).partition domain).Marked ∅ ∅ := by
  refine ⟨?_, ?_, fun _ => rfl, Finset.notMem_empty _, fun _ lt => absurd lt (Nat.not_lt_zero _),
    fun n => ?_, Finset.disjoint_empty_left _⟩
  · exact fun _ h => absurd h (Finset.notMem_empty _)
  · exact fun _ h => absurd h (Finset.notMem_empty _)
  · exact iff_of_false (Finset.notMem_empty _) fun h => Finset.notMem_empty _ h.1

/-- From a new partition, in a run whose requests of a domain are in order, the mark of the domain
is at the least nonce not committed and its gaps are exactly the missing nonces below the last
commit. -/
theorem high_water_mark {s : Tracked Domain} (domain : Domain)
    (reach : Reachable (· = {}) (Guarded (InOrder domain) (Guarded CommitsAssigned Step)) s) :
    HighWater domain s := by
  have marked : (lane s.partition domain).Marked (s.assigned domain) (s.released domain) :=
    reach.invariant (P := fun s : Tracked Domain =>
        (lane s.partition domain).Marked (s.assigned domain) (s.released domain))
      (fun _ new => new ▸ marked_new domain)
      fun _ _ _ marked step => marked_step marked step.2.1 step.1 step.2.2
  refine ⟨⟨marked.missing, fun nonce missing => ?_⟩, ?_⟩
  · exact not_lt.1 fun lt => missing (marked.through nonce lt)
  · exact marked.detectGaps_eq

end Runs

/-! ## The first commit -/

instance (s : Tracked ℕ) (exchange : Exchange ℕ) : Decidable (CommitsAssigned s exchange) :=
  match exchange with
  | ((domain, .commitNonce nonce), _) => inferInstanceAs (Decidable (nonce ∈ s.assigned domain))
  | ((_, .assignNonce), _) | ((_, .nextNonce), _) | ((_, .releaseNonce _), _)
  | ((_, .fillGap _), _) => .isTrue trivial

instance (domain : ℕ) (s : Tracked ℕ) (exchange : Exchange ℕ) :
    Decidable (InOrder domain s exchange) :=
  match exchange with
  | ((asked, .assignNonce), _) | ((asked, .nextNonce), _) =>
      inferInstanceAs (Decidable (asked = domain → (lane s.partition domain).Clear))
  | ((asked, .commitNonce nonce), _) => inferInstanceAs (Decidable
      (asked = domain → nonce = 0 ∨ 0 ∈ (lane s.partition domain).committedSet))
  | ((_, .releaseNonce _), _) => .isTrue fun _ => trivial
  | ((asked, .fillGap nonce), _) =>
      inferInstanceAs (Decidable (asked = domain → nonce ∈ (lane s.partition domain).held))

/-- Nonces 0 and 2 are committed and 1 is being filled. -/
theorem gap_below_last_commit :
    ∃ s : Tracked ℕ, Reachable (· = {}) (Guarded (InOrder 7) (Guarded CommitsAssigned Step)) s ∧
      nextExpected s.partition 7 = 1 ∧ (lane s.partition 7).filling = {1} ∧ HighWater 7 s := by
  obtain ⟨s, run, next, filling⟩ : ∃ s : Tracked ℕ,
      Run (Guarded (InOrder 7) (Guarded CommitsAssigned Step)) {} [assigns 0, assigns 1, assigns 2,
        ((7, .commitNonce 0), none), ((7, .commitNonce 2), none), ((7, .fillGap 1), none)] s ∧
      nextExpected s.partition 7 = 1 ∧ (lane s.partition 7).filling = {1} :=
    exists_guarded_run (fun _ _ _ step => (execIf_ok_iff.1 step).imp_right replay_step)
      (by decide +kernel)
  have reach : Reachable (· = {}) (Guarded (InOrder 7) (Guarded CommitsAssigned Step)) s :=
    ⟨{}, _, rfl, run⟩
  exact ⟨s, reach, next, filling, high_water_mark 7 reach⟩

/-- Nonce 1 is committed before nonce 0, and nonce 2 is expected next. -/
theorem first_commit_skips_zero :
    ∃ s : Tracked ℕ, Reachable (· = {}) (Guarded CommitsAssigned Step) s ∧
      nextExpected s.partition 7 = 2 ∧ 0 ∉ (lane s.partition 7).committedSet ∧ ¬ HighWater 7 s := by
  obtain ⟨s, run, next, missing⟩ : ∃ s : Tracked ℕ, Run (Guarded CommitsAssigned Step) {}
        [assigns 0, assigns 1, ((7, .commitNonce 1), none)] s ∧
      nextExpected s.partition 7 = 2 ∧ 0 ∉ (lane s.partition 7).committedSet :=
    exists_guarded_run (fun _ _ _ => replay_step) (by decide +kernel)
  refine ⟨s, ⟨{}, _, rfl, run⟩, next, missing, fun mark => ?_⟩
  have least := mark.1.2 missing
  rw [next] at least
  exact absurd least (by decide)

end NoncePartition
