import Perigee.Data.EditedList
import Perigee.Data.Wire
import Perigee.Soroban.Run
import Perigee.Soroban.Store

/-!
# Fee charges

A charge carries an idempotency key.  `charge_at` looks the key up, answers from the stored receipt
if there is a live one, and otherwise makes a receipt and stores it: two critical sections, and
other calls may run between them.  The file follows `core/src/billing_service.rs`, with a call cut
into its two parts.
-/

namespace BillingService

open Soroban

abbrev Text := List Char

/-- `IDEMPOTENCY_TTL`: a day, in nanoseconds. -/
def idempotencyTtl : ℤ := 86400000000000

structure ChargeRequest where
  idempotencyKey : Text
  payer : Text
  amountStroops : ℤ
  reason : Text
  deriving DecidableEq

structure ChargeReceipt where
  chargeId : Text
  payer : Text
  amountStroops : ℤ
  reason : Text
  chargedAt : ℤ
  replayed : Bool
  deriving DecidableEq

structure StoredCharge where
  receipt : ChargeReceipt
  fingerprint : Text
  expiresAt : ℤ
  deriving DecidableEq

inductive AppError where
  | badRequest (message : String)
  | conflict (message : String)
  deriving DecidableEq

abbrev Result (α : Type) := Outcome AppError α

abbrev Entries := Store Text StoredCharge

def isWhitespace (c : Char) : Bool :=
  c.toNat ∈ [0x20, 0x85, 0xA0, 0x1680, 0x2028, 0x2029, 0x202F, 0x205F, 0x3000] ||
    (9 ≤ c.toNat && c.toNat ≤ 13) || (0x2000 ≤ c.toNat && c.toNat ≤ 0x200A)

def validateChargeRequest (req : ChargeRequest) : Result Unit := do
  reject (req.idempotencyKey.all isWhitespace = true)
    (.badRequest "idempotency_key must not be empty")
  reject (req.payer.all isWhitespace = true) (.badRequest "payer must not be empty")
  reject (req.amountStroops ≤ 0) (.badRequest
    ("amount_stroops must be positive (got " ++ toString req.amountStroops ++ ")"))

/-- `IdempotencyStore::lookup`; an entry that has expired is dropped. -/
def lookup (key : Text) (now : ℤ) (entries : Entries) : Option StoredCharge × Entries :=
  match entries.lookup key with
  | some entry =>
    if now < entry.expiresAt then (some entry, entries) else (none, entries.remove key)
  | none => (none, entries)

def bytes (text : Text) : Wire.Bytes := text.flatMap String.utf8EncodeChar

def hex (bytes : Wire.Bytes) : Text :=
  bytes.flatMap fun byte => [Nat.digitChar (byte.toNat / 16), Nat.digitChar (byte.toNat % 16)]

variable (sha256 : Wire.Bytes → Wire.Bytes)

def chargeFingerprint (req : ChargeRequest) : Text :=
  let field (text : Text) := Wire.bigEndian 8 (bytes text).length ++ bytes text
  hex (sha256 (field req.payer ++ field req.reason ++
    Wire.bigEndian 8 (req.amountStroops % 2 ^ 64).toNat))

def chargeIdFor (key : Text) : Text := ['c', 'h', 'g', '_'] ++ hex ((sha256 (bytes key)).take 16)

structure Call where
  req : ChargeRequest
  now : ℤ
  deriving DecidableEq

def Call.receipt (call : Call) : ChargeReceipt where
  chargeId := chargeIdFor sha256 call.req.idempotencyKey
  payer := call.req.payer
  amountStroops := call.req.amountStroops
  reason := call.req.reason
  chargedAt := call.now
  replayed := false

/-- What a call answers to a live entry of its key. -/
def answer (req : ChargeRequest) (existing : StoredCharge) : Result ChargeReceipt :=
  if existing.fingerprint ≠ chargeFingerprint sha256 req then
    .error (.err (.conflict ("idempotency_key '" ++ String.ofList req.idempotencyKey ++
      "' was already used for a different charge")))
  else .ok { existing.receipt with replayed := true }

/-- A call up to the end of its first critical section; without an answer it goes on to charge. -/
def chargeLookup (call : Call) (entries : Entries) : Option (Result ChargeReceipt) × Entries :=
  match validateChargeRequest call.req with
  | .error fault => (some (.error fault), entries)
  | .ok _ =>
    let (existing, entries') := lookup call.req.idempotencyKey call.now entries
    (existing.map (answer sha256 call.req), entries')

/-- The rest of a call that charges: it stores its receipt and returns it. -/
def chargeStore (call : Call) (entries : Entries) : Entries :=
  entries.set call.req.idempotencyKey
    ⟨call.receipt sha256, chargeFingerprint sha256 call.req, call.now + idempotencyTtl⟩

/-! ## Concurrent calls -/

/-- The stored charges, the calls that are between their critical sections, and the calls that have
returned a receipt of their own. -/
structure Calls where
  entries : Entries := ∅
  pending : List Call := []
  charged : List Call := []

inductive Action where
  | lookup (call : Call)
  | store (call : Call)

def exec (s : Calls) : Action → Outcome Empty Calls
  | .lookup call =>
    let (answer, entries) := chargeLookup sha256 call s.entries
    pure { s with entries, pending := s.pending ++ if answer.isNone then [call] else [] }
  | .store call => do
    ensure (call ∈ s.pending)
    pure {
      entries := chargeStore sha256 call s.entries
      pending := s.pending.erase call
      charged := s.charged ++ [call] }

def Step (s : Calls) (action : Action) (s' : Calls) : Prop := exec sha256 s action = .ok s'

/-- No key is looked up while a call for it is between its critical sections. -/
def Alone (s : Calls) : Action → Prop
  | .lookup call => ∀ other ∈ s.pending, other.req.idempotencyKey ≠ call.req.idempotencyKey
  | .store _ => True

instance (s : Calls) (action : Action) : Decidable (Alone s action) := by
  cases action <;> unfold Alone <;> infer_instance

section Proofs

variable {sha256} {s s' : Calls} {call : Call} {action : Action}

/-- A call that goes on has found no live entry; another answers to its request or to an entry. -/
theorem chargeLookup_cases {ans : Option (Result ChargeReceipt)} {entries entries' : Entries}
    (h : chargeLookup sha256 call entries = (ans, entries')) :
    (ans = none ∧ (∀ entry, entries.lookup call.req.idempotencyKey = some entry →
        entry.expiresAt ≤ call.now) ∧
      (entries' = entries ∨ entries' = entries.remove call.req.idempotencyKey)) ∨
    entries' = entries ∧
      ((∃ fault, validateChargeRequest call.req = .error fault ∧ ans = some (.error fault)) ∨
        ∃ entry, entries.lookup call.req.idempotencyKey = some entry ∧
          call.now < entry.expiresAt ∧ ans = some (answer sha256 call.req entry)) := by
  unfold chargeLookup lookup at h
  cases valid : validateChargeRequest call.req with
  | error fault =>
    rw [valid] at h
    obtain ⟨rfl, rfl⟩ := Prod.mk.inj h
    exact .inr ⟨rfl, .inl ⟨fault, rfl, rfl⟩⟩
  | ok =>
    rw [valid] at h
    cases found : entries.lookup call.req.idempotencyKey with
    | none =>
      rw [found] at h
      obtain ⟨rfl, rfl⟩ := Prod.mk.inj h
      exact .inl ⟨rfl, nofun, .inl rfl⟩
    | some entry =>
      rw [found] at h
      by_cases live : call.now < entry.expiresAt
      · simp only [if_pos live] at h
        obtain ⟨rfl, rfl⟩ := Prod.mk.inj h
        exact .inr ⟨rfl, .inr ⟨entry, rfl, live, rfl⟩⟩
      · simp only [if_neg live] at h
        obtain ⟨rfl, rfl⟩ := Prod.mk.inj h
        exact .inl ⟨rfl, fun _ there => Option.some.inj there ▸ not_lt.1 live, .inr rfl⟩

/-- Every entry is that of a call that has charged for its key. -/
def Recorded (sha256 : Wire.Bytes → Wire.Bytes) (s : Calls) : Prop :=
  ∀ key entry, s.entries.lookup key = some entry → ∃ call ∈ s.charged,
    call.req.idempotencyKey = key ∧
      entry = ⟨call.receipt sha256, chargeFingerprint sha256 call.req, call.now + idempotencyTtl⟩

theorem Recorded.step (recorded : Recorded sha256 s) (h : Step sha256 s action s') :
    Recorded sha256 s' := by
  cases action with
  | lookup call =>
    rcases found : chargeLookup sha256 call s.entries with ⟨_, _⟩
    rw [Step, exec, found] at h
    obtain rfl := pure_ok_iff.1 h
    intro key entry there
    obtain ⟨-, -, rfl | rfl⟩ | ⟨rfl, -⟩ := chargeLookup_cases found
    · exact recorded key entry there
    · rw [Store.lookup_remove] at there
      split_ifs at there
      exact recorded key entry there
    · exact recorded key entry there
  | store call =>
    simp only [Step, exec, ok_iff] at h
    obtain ⟨_, -, rfl⟩ := h
    intro key entry there
    rw [chargeStore, Store.lookup_set] at there
    split_ifs at there with same
    · exact ⟨call, by simp, same.symm, (Option.some.inj there).symm⟩
    · obtain ⟨earlier, mem, facts⟩ := recorded key entry there
      exact ⟨earlier, by simp [mem], facts⟩

/-- Receipts of one key are a time to live apart: what has been charged for is stored as long, while
no call for its key is pending, and a pending call is a time to live later. -/
structure Spaced (s : Calls) : Prop where
  alone : s.pending.Pairwise fun a b => a.req.idempotencyKey ≠ b.req.idempotencyKey
  charged : s.charged.Pairwise fun a b =>
    a.req.idempotencyKey = b.req.idempotencyKey → a.now + idempotencyTtl ≤ b.now
  waiting : ∀ a ∈ s.charged, ∀ b ∈ s.pending,
    a.req.idempotencyKey = b.req.idempotencyKey → a.now + idempotencyTtl ≤ b.now
  stored : ∀ a ∈ s.charged, (∀ b ∈ s.pending, a.req.idempotencyKey ≠ b.req.idempotencyKey) →
    ∃ entry, s.entries.lookup a.req.idempotencyKey = some entry ∧
      a.now + idempotencyTtl ≤ entry.expiresAt

theorem Spaced.step (spaced : Spaced s) (alone : Alone s action) (h : Step sha256 s action s') :
    Spaced s' := by
  cases action with
  | lookup call =>
    rcases found : chargeLookup sha256 call s.entries with ⟨ans, _⟩
    rw [Step, exec, found] at h
    obtain rfl := pure_ok_iff.1 h
    obtain ⟨rfl, expired, gone⟩ | ⟨rfl, answered⟩ := chargeLookup_cases found
    · simp only [Option.isNone_none, if_true]
      refine ⟨?_, spaced.charged, fun a mem b => ?_, fun a mem free => ?_⟩
      · rw [List.pairwise_append]
        exact ⟨spaced.alone, List.pairwise_singleton _ _, by simpa [Alone] using alone⟩
      · simp only [List.mem_append, List.mem_singleton]
        rintro (pending | rfl) same
        · exact spaced.waiting a mem b pending same
        · obtain ⟨entry, there, le⟩ := spaced.stored a mem fun other pending clash =>
            alone other pending (clash.symm.trans same)
          exact le.trans (expired entry (same ▸ there))
      · simp only [List.mem_append, List.mem_singleton, or_imp, forall_and, forall_eq] at free
        obtain ⟨entry, there, le⟩ := spaced.stored a mem free.1
        refine ⟨entry, ?_, le⟩
        obtain rfl | rfl := gone
        · exact there
        · rw [Store.lookup_remove_of_ne _ free.2, there]
    · have some : ans.isNone = false := by
        obtain ⟨_, -, rfl⟩ | ⟨_, -, -, rfl⟩ := answered <;> rfl
      simp only [some, Bool.false_eq_true, if_false, List.append_nil]
      exact spaced
  | store call =>
    simp only [Step, exec, ok_iff] at h
    obtain ⟨_, pending, rfl⟩ := h
    have ttl : 0 ≤ idempotencyTtl := by decide
    obtain ⟨others, alone'⟩ := EditedList.pairwise_erase (fun _ _ => Ne.symm) spaced.alone pending
    refine ⟨alone', ?_, fun a mem b there same => ?_, fun a mem free => ?_⟩
    · rw [List.pairwise_append]
      refine ⟨spaced.charged, List.pairwise_singleton _ _, fun a mem b last same => ?_⟩
      obtain rfl := List.mem_singleton.1 last
      exact spaced.waiting a mem b pending same
    · rcases List.mem_append.1 mem with mem | last
      · exact spaced.waiting a mem b (List.mem_of_mem_erase there) same
      · obtain rfl := List.mem_singleton.1 last
        exact absurd same (others b there)
    · rw [chargeStore, Store.lookup_set]
      by_cases same : a.req.idempotencyKey = call.req.idempotencyKey
      · refine ⟨_, if_pos same, ?_⟩
        rcases List.mem_append.1 mem with mem | last
        · have before := spaced.waiting a mem call pending same
          dsimp only
          omega
        · obtain rfl := List.mem_singleton.1 last
          exact le_rfl
      · rw [if_neg same]
        have earlier : a ∈ s.charged := by
          rcases List.mem_append.1 mem with mem | last
          · exact mem
          · exact absurd (congrArg (·.req.idempotencyKey) (List.mem_singleton.1 last)) same
        refine spaced.stored a earlier fun b there clash => ?_
        by_cases here : b = call
        · exact same (here ▸ clash)
        · exact free b ((List.mem_erase_of_ne here).2 there) clash

end Proofs

end BillingService
