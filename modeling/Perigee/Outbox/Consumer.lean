import Perigee.BillingService.Charge
import Perigee.Soroban.Index

/-!
# Charging and handling once

`IdempotentConsumer::handle` of `core/src/outbox.rs` checks under a lock whether a message was
handled, runs the handler without the lock, and records the key under the lock.  Like a charge it
takes effect once if nobody checks a key while another call for it is under way, and not otherwise
(`effects_once`).
-/

namespace Outbox

open Soroban BillingService

/-! ## Calls of the consumer -/

/-- A consumer and the idempotency key of a message. -/
abbrev MessageKey := Text × Text

/-- The keys that are recorded, the calls whose handler runs, those whose handler has succeeded and
that have not recorded it, and the runs of a handler that have succeeded. -/
structure Consumers where
  processed : Store MessageKey Unit := ∅
  running : List MessageKey := []
  finished : List MessageKey := []
  succeeded : List MessageKey := []

/-- The parts of a call of `handle`: the handler returns, with or without success, between the two
critical sections. -/
inductive Part where
  | check (key : MessageKey)
  | run (key : MessageKey) (success : Bool)
  | record (key : MessageKey)

/-- A call whose key is recorded is a duplicate, and a failure is not recorded. -/
def handle (s : Consumers) : Part → Outcome Empty Consumers
  | .check key =>
    pure { s with running := s.running ++ if s.processed.has key then [] else [key] }
  | .run key success => do
    ensure (key ∈ s.running)
    let ended := if success then [key] else []
    pure { s with
      running := s.running.erase key
      finished := s.finished ++ ended
      succeeded := s.succeeded ++ ended }
  | .record key => do
    ensure (key ∈ s.finished)
    pure { s with processed := s.processed.set key (), finished := s.finished.erase key }

def Handles (s : Consumers) (part : Part) (s' : Consumers) : Prop := handle s part = .ok s'

/-- No key is checked while a call for it is under way. -/
def Unshared (s : Consumers) : Part → Prop
  | .check key => key ∉ s.running ∧ key ∉ s.finished
  | _ => True

instance (s : Consumers) (part : Part) : Decidable (Unshared s part) := by
  cases part <;> unfold Unshared <;> infer_instance

/-- No running handler is that of a key whose handler has succeeded, and successes are recorded or
about to be. -/
structure HandledOnce (s : Consumers) : Prop where
  succeeded : s.succeeded.Nodup
  running : s.running.Nodup
  fresh : ∀ key ∈ s.running, key ∉ s.succeeded
  known : ∀ key ∈ s.succeeded, key ∈ s.finished ∨ s.processed.has key = true

theorem HandledOnce.step {s s' : Consumers} {part : Part} (once : HandledOnce s)
    (unshared : Unshared s part) (h : Handles s part s') : HandledOnce s' := by
  cases part with
  | check key =>
    obtain rfl := pure_ok_iff.1 h
    by_cases seen : s.processed.has key = true
    · simpa [seen] using once
    · have new : key ∉ s.succeeded := fun before =>
        (once.known key before).elim unshared.2 seen
      simp only [if_neg seen]
      refine ⟨once.succeeded, ?_, ?_, once.known⟩
      · simpa using once.running.concat unshared.1
      · simp only [List.mem_append, List.mem_singleton]
        rintro k (mem | rfl)
        · exact once.fresh k mem
        · exact new
  | run key success =>
    simp only [Handles, handle, ok_iff] at h
    obtain ⟨_, mem, rfl⟩ := h
    have fresh (k) (there : k ∈ s.running.erase key) : k ≠ key ∧ k ∉ s.succeeded := by
      rw [once.running.mem_erase_iff] at there
      exact ⟨there.1, once.fresh k there.2⟩
    cases success with
    | false =>
      simp only [Bool.false_eq_true, if_false, List.append_nil]
      exact ⟨once.succeeded, once.running.erase key, fun k there => (fresh k there).2, once.known⟩
    | true =>
      refine ⟨?_, once.running.erase key, fun k there => ?_, fun k there => ?_⟩
      · simpa using once.succeeded.concat (once.fresh key mem)
      · simpa using (fresh k there).symm
      · rcases List.mem_append.1 there with before | now
        · exact (once.known k before).imp_left (List.mem_append_left _)
        · exact .inl (List.mem_append_right _ now)
  | record key =>
    simp only [Handles, handle, ok_iff] at h
    obtain ⟨_, mem, rfl⟩ := h
    refine ⟨once.succeeded, once.running, once.fresh, fun k there => ?_⟩
    by_cases same : k = key
    · exact .inr ((Store.has_set_iff ..).2 (.inl same))
    · exact (once.known k there).imp (List.mem_erase_of_ne same).2
        fun before => (Store.has_set_iff ..).2 (.inr before)

/-! ## Both services -/

/-- Concurrent charges, each of which looks its key up and stores its receipt: an answer to a valid
request is a conflict or the receipt of a charge of its key, less than a time to live old; if no key
is looked up while a call for it is pending, charges of one key are a time to live apart.
Concurrent handlers of messages: if no key is checked while a call for it is under way, one run of a
handler succeeds for each consumer and key. -/
theorem effects_once (sha256 : Wire.Bytes → Wire.Bytes) :
    (∀ actions s, Run (Step sha256) {} actions s → ∀ call result entries,
      chargeLookup sha256 call s.entries = (some result, entries) →
      validateChargeRequest call.req = .ok () →
      (∃ message, result = .error (.err (.conflict message))) ∨
        ∃ first ∈ s.charged, first.req.idempotencyKey = call.req.idempotencyKey ∧
          call.now < first.now + idempotencyTtl ∧
          result = .ok { first.receipt sha256 with replayed := true }) ∧
    (∀ actions s, Run (Guarded Alone (Step sha256)) {} actions s →
      s.charged.Pairwise fun first second =>
        first.req.idempotencyKey = second.req.idempotencyKey →
          first.now + idempotencyTtl ≤ second.now) ∧
    ∀ parts s, Run (Guarded Unshared Handles) {} parts s → s.succeeded.Nodup := by
  refine ⟨fun actions s run call result entries found valid => ?_, fun actions s run => ?_,
    fun parts s run => ?_⟩
  · have recorded : Recorded sha256 s :=
      run.invariant (fun _ entry there => by simp at there) fun _ _ _ before last =>
        before.step last
    obtain ⟨none, -⟩ | ⟨-, ⟨_, invalid, -⟩ | ⟨entry, there, live, answered⟩⟩ :=
      chargeLookup_cases found
    · cases none
    · rw [valid] at invalid
      cases invalid
    · obtain rfl := Option.some.inj answered
      obtain ⟨first, mem, same, rfl⟩ := recorded _ _ there
      unfold answer
      split_ifs with reused
      · exact .inl ⟨_, rfl⟩
      · exact .inr ⟨first, mem, same, live, rfl⟩
  · refine (run.invariant (P := Spaced) ⟨.nil, .nil, nofun, nofun⟩ ?_).charged
    exact fun _ _ _ spaced step => spaced.step step.1 step.2
  · refine (run.invariant (P := HandledOnce) ⟨.nil, .nil, nofun, nofun⟩ ?_).succeeded
    exact fun _ _ _ once step => once.step step.1 step.2

/-! ## Two calls at once -/

def charge (now : ℤ) : Call := ⟨⟨['k'], ['p'], 5, ['r']⟩, now⟩

def delivery : MessageKey := (['c'], ['k'])

/-- A charge and its replay; a handler that fails, succeeds when the message comes again, and does
not run for a duplicate. -/
theorem inTurn_spaced :
    (∃ s, Run (Guarded Alone (Step id)) {} [.lookup (charge 0), .store (charge 0),
        .lookup (charge 1)] s ∧ s.charged = [charge 0] ∧ s.pending = [] ∧
      s.charged.Pairwise fun first second =>
        first.req.idempotencyKey = second.req.idempotencyKey →
          first.now + idempotencyTtl ≤ second.now) ∧
    ∃ s, Run (Guarded Unshared Handles) {} [.check delivery, .run delivery false, .check delivery,
        .run delivery true, .record delivery, .check delivery] s ∧ s.running = [] ∧
      delivery ∈ s.succeeded ∧ s.succeeded.Nodup := by
  obtain ⟨s, run, charged, pending⟩ : ∃ s, Run (Guarded Alone (Step id)) {}
      [.lookup (charge 0), .store (charge 0), .lookup (charge 1)] s ∧
        s.charged = [charge 0] ∧ s.pending = [] :=
    exists_guarded_run (fun _ _ _ => id) (by decide +kernel)
  obtain ⟨c, handled, idle, succeeded⟩ : ∃ c, Run (Guarded Unshared Handles) {}
      [.check delivery, .run delivery false, .check delivery, .run delivery true, .record delivery,
        .check delivery] c ∧ c.running = [] ∧ delivery ∈ c.succeeded :=
    exists_guarded_run (fun _ _ _ => id) (by decide +kernel)
  exact ⟨⟨s, run, charged, pending, (effects_once id).2.1 _ s run⟩,
    c, handled, idle, succeeded, (effects_once id).2.2 _ c handled⟩

/-- Two calls that both look a key up before either has stored its receipt charge twice, a
nanosecond apart, and two deliveries of one message run its handler twice. -/
theorem overlapping_calls_repeat :
    (∃ s, Run (Step id) {} [.lookup (charge 0), .lookup (charge 1), .store (charge 0),
      .store (charge 1)] s ∧ s.charged = [charge 0, charge 1]) ∧
    ∃ s, Run Handles {} [.check delivery, .check delivery, .run delivery true,
      .run delivery true] s ∧ s.succeeded = [delivery, delivery] := by
  exact ⟨exists_run (fun _ _ _ => id) (by decide +kernel),
    exists_run (fun _ _ _ => id) (by decide +kernel)⟩

end Outbox
