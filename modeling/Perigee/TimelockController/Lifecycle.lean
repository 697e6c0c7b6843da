import Perigee.TimelockController.Contract

/-!
# The life of an operation

`Lived c log phase` says that the events of the call `c` are in an order that a timelock allows, and
in which phase they leave it: a call is queued when it is new or canceled, and canceled or invoked
when it is pending, invoked not before its delay has passed.
-/

namespace TimelockController

inductive Event (Address Val : Type) where
  | queued (call : Invocation Address Val) (time delay : ℕ)
  | invoked (call : Invocation Address Val) (time : ℕ)
  | canceled (call : Invocation Address Val)
  deriving DecidableEq

variable {Address Val : Type}

def Event.call : Event Address Val → Invocation Address Val
  | .queued call _ _ => call
  | .invoked call _ => call
  | .canceled call => call

inductive Phase where
  | unknown
  | pending (time delay : ℕ)
  | canceled
  | invoked

/-- The events of `c` take it through its phases in order. -/
inductive Lived (c : Invocation Address Val) : List (Event Address Val) → Phase → Prop
  | nil : Lived c [] .unknown
  | other {log : List (Event Address Val)} {phase : Phase} {e : Event Address Val} :
      Lived c log phase → e.call ≠ c → Lived c (log ++ [e]) phase
  | queued {log : List (Event Address Val)} {phase : Phase} (time delay : ℕ) :
      Lived c log phase → phase = .unknown ∨ phase = .canceled →
      Lived c (log ++ [.queued c time delay]) (.pending time delay)
  | canceled {log : List (Event Address Val)} {time delay : ℕ} :
      Lived c log (.pending time delay) → Lived c (log ++ [.canceled c]) .canceled
  | invoked {log : List (Event Address Val)} {time delay now : ℕ} :
      Lived c log (.pending time delay) → time + delay ≤ now →
      Lived c (log ++ [.invoked c now]) .invoked

/-- An invocation follows the queueing of the call by at least the delay of that time, with nothing
happening to the call in between; there is no second invocation; and after a cancellation there is
none unless the call is queued again. -/
structure Safe (c : Invocation Address Val) (log : List (Event Address Val)) : Prop where
  timed : ∀ before now after, log = before ++ .invoked c now :: after →
    ∃ first time delay between, before = first ++ .queued c time delay :: between ∧
      time + delay ≤ now ∧ ∀ e ∈ between, e.call ≠ c
  once : ∀ before now after, log = before ++ .invoked c now :: after →
    ∀ time, .invoked c time ∉ before ∧ .invoked c time ∉ after
  canceled : ∀ before after, log = before ++ .canceled c :: after →
    (∀ time delay, .queued c time delay ∉ after) → ∀ time, .invoked c time ∉ after

theorem snoc_split {α : Type} {log before after : List α} {e x : α}
    (h : log ++ [e] = before ++ x :: after) :
    (after = [] ∧ x = e ∧ before = log) ∨
      ∃ rest, after = rest ++ [e] ∧ log = before ++ x :: rest := by
  rcases List.eq_nil_or_concat after with rfl | ⟨rest, last, rfl⟩
  · obtain ⟨rfl, last⟩ := List.append_inj' h rfl
    exact .inl ⟨rfl, (List.singleton_inj.1 last).symm, rfl⟩
  · rw [List.concat_eq_append, ← List.cons_append, ← List.append_assoc] at h
    obtain ⟨rfl, last⟩ := List.append_inj' h rfl
    rw [List.singleton_inj.1 last]
    exact .inr ⟨rest, by simp, rfl⟩

namespace Lived

variable {c : Invocation Address Val} {log : List (Event Address Val)} {phase : Phase}
  {before after : List (Event Address Val)} {now : ℕ}

theorem exists_queued {time delay : ℕ} (lived : Lived c log (.pending time delay)) :
    ∃ first between, log = first ++ .queued c time delay :: between ∧
      ∀ e ∈ between, e.call ≠ c := by
  generalize eq : Phase.pending time delay = phase at lived
  induction lived with
  | nil => cases eq
  | @other _ _ e _ foreign ih =>
    obtain ⟨first, between, rfl, quiet⟩ := ih eq
    refine ⟨first, between ++ [e], by simp, ?_⟩
    exact List.forall_mem_append.2 ⟨quiet, List.forall_mem_singleton.2 foreign⟩
  | queued =>
    obtain ⟨rfl, rfl⟩ := Phase.pending.inj eq
    exact ⟨_, [], rfl, nofun⟩
  | canceled | invoked => cases eq

theorem invoked_notMem (lived : Lived c log phase) (waiting : phase ≠ .invoked) (time : ℕ) :
    .invoked c time ∉ log := by
  induction lived with
  | nil => exact List.not_mem_nil
  | other _ foreign ih =>
    rw [List.mem_append, List.mem_singleton]
    rintro (mem | rfl)
    · exact ih waiting mem
    · exact foreign rfl
  | @queued _ phase _ _ _ start ih =>
    have before : phase ≠ .invoked := by rcases start with rfl | rfl <;> nofun
    simpa using ih before
  | canceled _ ih => simpa using ih nofun
  | invoked => exact absurd rfl waiting

theorem invoked_split (lived : Lived c log phase)
    (split : log = before ++ .invoked c now :: after) :
    (∃ first time delay between, before = first ++ .queued c time delay :: between ∧
      time + delay ≤ now ∧ ∀ e ∈ between, e.call ≠ c) ∧
    ∀ time, .invoked c time ∉ before ∧ .invoked c time ∉ after := by
  induction lived generalizing after with
  | nil => simp at split
  | other _ foreign ih =>
    obtain ⟨-, rfl, -⟩ | ⟨rest, rfl, eq⟩ := snoc_split split
    · exact absurd rfl foreign
    · obtain ⟨queued, once⟩ := ih eq
      refine ⟨queued, fun time => ⟨(once time).1, ?_⟩⟩
      rw [List.mem_append, List.mem_singleton]
      rintro (mem | rfl)
      · exact (once time).2 mem
      · exact foreign rfl
  | queued _ _ _ _ ih | canceled _ ih =>
    obtain ⟨-, last, -⟩ | ⟨rest, rfl, eq⟩ := snoc_split split
    · cases last
    · simpa using ih eq
  | @invoked _ time delay _ waiting ready =>
    obtain ⟨rfl, last, rfl⟩ | ⟨rest, rfl, eq⟩ := snoc_split split
    · obtain ⟨-, rfl⟩ := Event.invoked.inj last
      obtain ⟨first, between, eq, quiet⟩ := waiting.exists_queued
      exact ⟨⟨first, time, delay, between, eq, ready, quiet⟩, fun time =>
        ⟨waiting.invoked_notMem nofun time, List.not_mem_nil⟩⟩
    · -- an earlier invocation would have left the pending phase for good
      exact absurd (eq ▸ by simp) (waiting.invoked_notMem nofun now)

theorem stays_canceled (lived : Lived c log phase) (split : log = before ++ .canceled c :: after)
    (not_again : ∀ time delay, .queued c time delay ∉ after) :
    phase = .canceled ∧ ∀ time, .invoked c time ∉ after := by
  induction lived generalizing after with
  | nil => simp at split
  | other _ foreign ih =>
    obtain ⟨-, rfl, -⟩ | ⟨rest, rfl, eq⟩ := snoc_split split
    · exact absurd rfl foreign
    · obtain ⟨same, none⟩ := ih eq fun time delay mem => not_again time delay (by simp [mem])
      refine ⟨same, fun time => ?_⟩
      rw [List.mem_append, List.mem_singleton]
      rintro (mem | rfl)
      · exact none time mem
      · exact foreign rfl
  | queued time delay =>
    obtain ⟨-, last, -⟩ | ⟨rest, rfl, -⟩ := snoc_split split
    · cases last
    · exact absurd (by simp) (not_again time delay)
  | canceled _ ih =>
    obtain ⟨rfl, -, -⟩ | ⟨rest, rfl, eq⟩ := snoc_split split
    · exact ⟨rfl, fun _ => List.not_mem_nil⟩
    · cases (ih eq fun time delay mem => not_again time delay (by simp [mem])).1
  | invoked _ _ ih =>
    obtain ⟨-, last, -⟩ | ⟨rest, rfl, eq⟩ := snoc_split split
    · cases last
    · cases (ih eq fun time delay mem => not_again time delay (by simp [mem])).1

theorem safe (lived : Lived c log phase) : Safe c log where
  timed _ _ _ split := (lived.invoked_split split).1
  once _ _ _ split := (lived.invoked_split split).2
  canceled _ _ split not_again := (lived.stays_canceled split not_again).2

end Lived

end TimelockController
