import Perigee.NoncePartition.Partition
import Perigee.Data.Isolation

/-!
# Domains as separate lanes

A domain is a machine of its own: `Lane` is the state of one domain and `Lane.exec` what a request
does to it.  The partition runs every request on the lane of its domain (`exec_lane`) and leaves the
others alone (`exec_other`), so no domain sees what is asked of another (`domains_isolated`).
-/

namespace NoncePartition

open Soroban Isolation

structure Lane where
  committed : Option ℕ := none
  inflight : Finset ℕ := ∅
  filling : Finset ℕ := ∅
  committedSet : Finset ℕ := ∅
  exhausted : Bool := false

namespace Lane

def nextExpected (l : Lane) : ℕ := l.committed.elim 0 saturatingSucc

def held (l : Lane) : Finset ℕ := l.inflight ∪ l.filling

def nextAssignable (l : Lane) : Option ℕ :=
  firstFree l.inflight l.filling (l.held.card + 1) l.nextExpected

def assign (l : Lane) : Option (Reply × Lane) :=
  l.nextAssignable.map fun candidate =>
    if candidate = nonceMax then (some (.error exhaustedMessage), { l with exhausted := true })
    else (some (.ok candidate), { l with inflight := insert candidate l.inflight })

def commit (l : Lane) (nonce : ℕ) : Option Lane :=
  let committedSet := insert nonce l.committedSet
  (advance committedSet (committedSet.card + 1) (l.committed.getD 0)).map fun committed =>
    { l with
      committed := some committed
      inflight := l.inflight.erase nonce
      filling := l.filling.erase nonce
      committedSet }

def detectGaps (l : Lane) : List ℕ :=
  if h : l.committedSet.Nonempty then
    ((l.inflight.val + l.filling.val).filter (· < l.committedSet.max' h)).sort
  else []

/-- What a request does to the domain it is asked of. -/
def exec (l : Lane) : Request → Option (Reply × Lane)
  | .assignNonce | .nextNonce => l.assign
  | .commitNonce nonce => (l.commit nonce).map (none, ·)
  | .releaseNonce nonce =>
      some (none, { l with inflight := l.inflight.erase nonce, filling := l.filling.erase nonce })
  | .fillGap nonce =>
      some (none, { l with inflight := l.inflight.erase nonce, filling := insert nonce l.filling })

end Lane

section Lanes

variable {Domain : Type} [DecidableEq Domain] {p p' : Partition Domain} {domain other : Domain}
  {request : Request} {reply : Reply}

def lane (p : Partition Domain) (domain : Domain) : Lane where
  committed := p.committed.lookup domain
  inflight := p.inflight.getD domain ∅
  filling := p.filling.getD domain ∅
  committedSet := p.committedSet.getD domain ∅
  exhausted := p.exhausted.contains domain

theorem getD_removeFrom (sets : Store Domain (Finset ℕ)) (domain other : Domain) (nonce : ℕ) :
    (removeFrom sets domain nonce).getD other ∅ =
      if other = domain then (sets.getD domain ∅).erase nonce else sets.getD other ∅ := by
  unfold removeFrom
  cases h : sets.lookup domain with
  | some =>
    rw [Store.getD_set]
    simp only [Store.getD, h, Option.getD_some]
  | none =>
    split_ifs with own
    · subst own
      simp only [Store.getD, h, Option.getD_none, Finset.erase_empty]
    · rfl

theorem getD_insertInto (sets : Store Domain (Finset ℕ)) (domain other : Domain) (nonce : ℕ) :
    (insertInto sets domain nonce).getD other ∅ =
      if other = domain then insert nonce (sets.getD domain ∅) else sets.getD other ∅ := by
  rw [insertInto, Store.getD_set]

theorem contains_noted (exhausted : List Domain) (domain other : Domain) :
    (if exhausted.contains domain then exhausted else exhausted ++ [domain]).contains other =
      (other == domain || exhausted.contains other) := by
  by_cases own : other = domain
  · split_ifs with noted <;> simp_all
  · split_ifs <;> simp [own]

theorem assignNonce_lane (p : Partition Domain) (domain : Domain) :
    (assignNonce p domain).map (fun r => (some r.1, lane r.2 domain)) = (lane p domain).assign := by
  change Option.map _ (Option.bind (lane p domain).nextAssignable _) = _
  unfold Lane.assign
  cases (lane p domain).nextAssignable with
  | none => rfl
  | some candidate =>
    by_cases last : candidate = nonceMax
    · simp only [Option.bind_some, Option.map_some, if_pos last, lane, contains_noted, BEq.rfl,
        Bool.true_or]
    · simp only [Option.bind_some, Option.map_some, if_neg last, lane, getD_insertInto, if_true]

theorem commitNonce_lane (p : Partition Domain) (domain : Domain) (nonce : ℕ) :
    (commitNonce p domain nonce).map (lane · domain) = (lane p domain).commit nonce := by
  have nonces : (insertInto p.committedSet domain nonce).getD domain ∅ =
      insert nonce (lane p domain).committedSet := by
    rw [getD_insertInto, if_pos rfl]
    rfl
  have mark : p.committed.getD domain 0 = (lane p domain).committed.getD 0 := rfl
  unfold commitNonce Lane.commit
  simp only [nonces, mark, Option.bind_eq_bind]
  cases advance (insert nonce (lane p domain).committedSet) _
    ((lane p domain).committed.getD 0) with
  | none => rfl
  | some committed =>
    simp only [Option.bind_some, Option.map_some, lane, getD_removeFrom, getD_insertInto, if_true,
      Store.lookup_set_self]

theorem exec_lane (p : Partition Domain) (domain : Domain) (request : Request) :
    (exec p domain request).map (fun r => (r.1, lane r.2 domain)) =
      (lane p domain).exec request := by
  cases request with
  | assignNonce | nextNonce =>
    rw [Lane.exec, ← assignNonce_lane]
    exact Option.map_map ..
  | commitNonce =>
    rw [Lane.exec, ← commitNonce_lane, exec, Option.map_map, Option.map_map]
    rfl
  | releaseNonce => simp [exec, Lane.exec, lane, releaseNonce, getD_removeFrom]
  | fillGap => simp [exec, Lane.exec, lane, fillGap, getD_removeFrom, getD_insertInto]

theorem assignNonce_other {result : Except String ℕ} (h : assignNonce p domain = some (result, p'))
    (ne : other ≠ domain) : lane p' other = lane p other := by
  obtain ⟨candidate, -, h⟩ := Option.bind_eq_some_iff.1 h
  by_cases last : candidate = nonceMax
  · rw [if_pos last] at h
    obtain ⟨-, rfl⟩ := Prod.mk.inj (Option.some.inj h)
    simp only [lane, contains_noted, beq_false_of_ne ne, Bool.false_or]
  · rw [if_neg last] at h
    obtain ⟨-, rfl⟩ := Prod.mk.inj (Option.some.inj h)
    simp only [lane, getD_insertInto, if_neg ne]

theorem exec_other (h : exec p domain request = some (reply, p')) (ne : other ≠ domain) :
    lane p' other = lane p other := by
  cases request with
  | assignNonce | nextNonce =>
    obtain ⟨r, assigned, eq⟩ := Option.map_eq_some_iff.1 h
    obtain ⟨-, rfl⟩ := Prod.mk.inj eq
    exact assignNonce_other assigned ne
  | commitNonce =>
    obtain ⟨_, committed, eq⟩ := Option.map_eq_some_iff.1 h
    obtain ⟨-, rfl⟩ := Prod.mk.inj eq
    obtain ⟨_, -, eq⟩ := Option.bind_eq_some_iff.1 committed
    obtain rfl := Option.some.inj eq
    simp only [lane, getD_removeFrom, getD_insertInto, if_neg ne, Store.lookup_set_of_ne _ _ ne]
  | releaseNonce =>
    obtain ⟨-, rfl⟩ := Prod.mk.inj (Option.some.inj h)
    simp only [lane, releaseNonce, getD_removeFrom, if_neg ne]
  | fillGap =>
    obtain ⟨-, rfl⟩ := Prod.mk.inj (Option.some.inj h)
    simp only [lane, fillGap, getD_removeFrom, getD_insertInto, if_neg ne]

theorem exec_own (h : exec p domain request = some (reply, p')) :
    (lane p domain).exec request = some (reply, lane p' domain) := by
  rw [← exec_lane, h, Option.map_some]

/-! ## Isolation -/

/-- What a request gives: its reply, if it returns, and the state after it. -/
def respond (p : Partition Domain) (asked : Domain × Request) : Option Reply × Partition Domain :=
  match exec p asked.1 asked.2 with
  | some (reply, p') => (some reply, p')
  | none => (none, p)

def askedOf (domain : Domain) (asked : Domain × Request) : Bool := decide (asked.1 = domain)

theorem respond_lane (p : Partition Domain) (domain : Domain) (request : Request) :
    (respond p (domain, request)).1 = ((lane p domain).exec request).map Prod.fst ∧
      lane (respond p (domain, request)).2 domain =
        (((lane p domain).exec request).map Prod.snd).getD (lane p domain) := by
  rw [← exec_lane, respond]
  cases exec p domain request <;> exact ⟨rfl, rfl⟩

theorem domains_isolated (domain : Domain) :
    Isolated respond (askedOf domain) (lane · domain) where
  hidden p asked hidden := by
    have ne : domain ≠ asked.1 := fun eq => of_decide_eq_false hidden eq.symm
    unfold respond
    cases h : exec p asked.1 asked.2 with
    | none => rfl
    | some => exact exec_other h ne
  next p q asked seen same := by
    obtain ⟨_, request⟩ := asked
    obtain rfl := of_decide_eq_true seen
    rw [(respond_lane p _ request).2, (respond_lane q _ request).2]
    rw [same]
  out p q asked seen same := by
    obtain ⟨_, request⟩ := asked
    obtain rfl := of_decide_eq_true seen
    rw [(respond_lane p _ request).1, (respond_lane q _ request).1]
    dsimp only at same
    rw [same]

end Lanes

end NoncePartition
