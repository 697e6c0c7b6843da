import Perigee.Soroban.Store

/-!
# Nonce assignment per domain

`NoncePartition` hands out nonces for each domain and follows which of them are in flight, being
filled by a no-op or committed.  The file follows `core/src/nonce_partition.rs`.  The two loops of
the source stop unless a set contains `NONCE_MAX`, where the candidate saturates: they are run here
with enough fuel to stop if they ever do, and `none` says that they do not.
-/

namespace NoncePartition

open Soroban

def nonceMax : ℕ := 2 ^ 64 - 1

def saturatingSucc (n : ℕ) : ℕ := min (n + 1) nonceMax

def exhaustedMessage : String := "nonce range exhausted for domain"

structure Partition (Domain : Type) where
  /-- The highest nonce committed contiguously. -/
  committed : Store Domain ℕ := ∅
  inflight : Store Domain (Finset ℕ) := ∅
  filling : Store Domain (Finset ℕ) := ∅
  committedSet : Store Domain (Finset ℕ) := ∅
  exhausted : List Domain := []

section Sets

variable {Domain : Type} [DecidableEq Domain]

def removeFrom (sets : Store Domain (Finset ℕ)) (domain : Domain) (nonce : ℕ) :
    Store Domain (Finset ℕ) :=
  match sets.lookup domain with
  | some held => sets.set domain (held.erase nonce)
  | none => sets

/-- Insert a nonce into the set of a domain, which is empty by default. -/
def insertInto (sets : Store Domain (Finset ℕ)) (domain : Domain) (nonce : ℕ) :
    Store Domain (Finset ℕ) :=
  sets.set domain (insert nonce (sets.getD domain ∅))

end Sets

/-- The loop of `next_assignable`: the first candidate in neither set. -/
def firstFree (inflight filling : Finset ℕ) : ℕ → ℕ → Option ℕ
  | 0, _ => none
  | fuel + 1, candidate =>
    if candidate ∈ inflight ∨ candidate ∈ filling then
      firstFree inflight filling fuel (saturatingSucc candidate)
    else some candidate

/-- The loop of `commit_nonce`: advance the mark while the next nonce is committed. -/
def advance (committedSet : Finset ℕ) : ℕ → ℕ → Option ℕ
  | 0, _ => none
  | fuel + 1, committed =>
    if saturatingSucc committed ∈ committedSet then
      advance committedSet fuel (saturatingSucc committed)
    else some committed

section Operations

variable {Domain : Type} [DecidableEq Domain] (p : Partition Domain)

def nextExpected (domain : Domain) : ℕ :=
  (p.committed.lookup domain).elim 0 saturatingSucc

def nextAssignable (domain : Domain) : Option ℕ :=
  let inflight := p.inflight.getD domain ∅
  let filling := p.filling.getD domain ∅
  firstFree inflight filling ((inflight ∪ filling).card + 1) (nextExpected p domain)

/-- Assign the next nonce that is neither in flight nor being filled. -/
def assignNonce (domain : Domain) : Option (Except String ℕ × Partition Domain) := do
  let candidate ← nextAssignable p domain
  if candidate = nonceMax then
    some (.error exhaustedMessage, { p with
      exhausted := if p.exhausted.contains domain then p.exhausted else p.exhausted ++ [domain] })
  else some (.ok candidate, { p with inflight := insertInto p.inflight domain candidate })

def nextNonce (domain : Domain) : Option (Except String ℕ × Partition Domain) :=
  assignNonce p domain

/-- Mark a nonce as committed and advance the mark.  The mark starts at 0 whether or not nonce 0 is
committed. -/
def commitNonce (domain : Domain) (nonce : ℕ) : Option (Partition Domain) := do
  let committedSet := insertInto p.committedSet domain nonce
  let nonces := committedSet.getD domain ∅
  let committed ← advance nonces (nonces.card + 1) (p.committed.getD domain 0)
  some
    { p with
      inflight := removeFrom p.inflight domain nonce
      filling := removeFrom p.filling domain nonce
      committedSet
      committed := p.committed.set domain committed }

def releaseNonce (domain : Domain) (nonce : ℕ) : Partition Domain :=
  { p with
    inflight := removeFrom p.inflight domain nonce
    filling := removeFrom p.filling domain nonce }

/-- The nonces in flight or being filled below the largest committed one, in increasing order. -/
def detectGaps (domain : Domain) : List ℕ :=
  let committedSet := p.committedSet.getD domain ∅
  if h : committedSet.Nonempty then
    (((p.inflight.getD domain ∅).val + (p.filling.getD domain ∅).val).filter
      (· < committedSet.max' h)).sort
  else []

/-- Fill a gap with a no-op: the nonce is no longer in flight. -/
def fillGap (domain : Domain) (nonce : ℕ) : Partition Domain :=
  { p with
    inflight := removeFrom p.inflight domain nonce
    filling := insertInto p.filling domain nonce }

def currentNonce (domain : Domain) : Option ℕ := nextAssignable p domain

def isExhausted (domain : Domain) : Bool := p.exhausted.contains domain

end Operations

/-! ## Requests -/

inductive Request where
  | assignNonce
  | nextNonce
  | commitNonce (nonce : ℕ)
  | releaseNonce (nonce : ℕ)
  | fillGap (nonce : ℕ)
  deriving DecidableEq

/-- The nonce or the error that a request for one returns. -/
abbrev Reply := Option (Except String ℕ)

def exec {Domain : Type} [DecidableEq Domain] (p : Partition Domain) (domain : Domain) :
    Request → Option (Reply × Partition Domain)
  | .assignNonce => (assignNonce p domain).map fun r => (some r.1, r.2)
  | .nextNonce => (nextNonce p domain).map fun r => (some r.1, r.2)
  | .commitNonce nonce => (commitNonce p domain nonce).map (none, ·)
  | .releaseNonce nonce => some (none, releaseNonce p domain nonce)
  | .fillGap nonce => some (none, fillGap p domain nonce)

end NoncePartition
