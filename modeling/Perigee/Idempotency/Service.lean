import Perigee.Data.Fields
import Perigee.Soroban.Store
import Perigee.Soroban.Timed

/-!
# Idempotency keys

A request claims its key before it runs.  The backend remembers the claim, and later the response,
until the time to live is over.  The file follows `core/src/idempotency.rs`, with the in-memory
backend.  Its operations are atomic: each runs under the lock, at the time `now` that it has read
from the clock.  A panic under the lock poisons it for all operations after.
-/

namespace Idempotency

open Soroban

abbrev Text := List Char

structure StoredResponse where
  status : ℕ
  headers : List (Text × Text)
  body : Text
  deriving DecidableEq

/-- A server error is not worth replaying. -/
def StoredResponse.isCacheable (response : StoredResponse) : Prop := response.status < 500

instance (response : StoredResponse) : Decidable response.isCacheable :=
  inferInstanceAs (Decidable (_ < _))

inductive Entry where
  | inProgress (fingerprint : Text)
  | completed (fingerprint : Text) (response : StoredResponse)
  deriving DecidableEq

def Entry.fingerprint : Entry → Text
  | .inProgress fingerprint => fingerprint
  | .completed fingerprint _ => fingerprint

inductive IdempotencyError where
  | invalidKey
  | keyReuse
  | inProgress
  | backend (message : String)
  deriving DecidableEq

/-- A result of the service; a panic is a trap. -/
abbrev Result (α : Type) := Outcome IdempotencyError α

/-- Who and what a key is scoped to; a method is a token of HTTP, so it has no colon. -/
structure Scope where
  userId : Text
  method : Text
  path : Text
  token : ':' ∉ method
  deriving DecidableEq

/-- The upper-casing of texts goes character by character and makes no colon. -/
structure Uppercase where
  upper : Char → Text
  colon : ∀ c, ':' ∈ upper c → c = ':'

def Uppercase.toUppercase (casing : Uppercase) (text : Text) : Text := text.flatMap casing.upper

def Scope.new (casing : Uppercase) (userId method path : Text) (token : ':' ∉ method) : Scope where
  userId
  method := casing.toUppercase method
  path
  token mem := by
    obtain ⟨c, there, colon⟩ := List.mem_flatMap.1 mem
    exact token (casing.colon c colon ▸ there)

/-- `idem:{length}:{user}:{method}:{length}:{path}:{key}`. -/
def Scope.storageKey (scope : Scope) (key : Text) : Text :=
  ['i', 'd', 'e', 'm', ':'] ++ (Fields.sized scope.userId ++ ':' ::
    (scope.method ++ ':' :: (Fields.sized scope.path ++ ':' :: key)))

def isAsciiHexdigit (c : Char) : Bool :=
  c.isDigit || ('a' ≤ c && c ≤ 'f') || ('A' ≤ c && c ≤ 'F')

/-- The canonical form of a UUID. -/
def validateKey (key : Text) : Result Unit :=
  let parts := key.splitOn '-'
  let lengths := [8, 4, 4, 4, 12]
  reject (¬ (parts.length = lengths.length ∧ (parts.zip lengths).all (fun (part, length) =>
    Fields.byteLength part = length && part.all isAsciiHexdigit) = true)) .invalidKey

/-! ## The in-memory backend -/

structure InMemoryBackend where
  /-- Each entry, with the time at which it expires. -/
  entries : Store Text (Entry × ℕ) := ∅
  /-- An operation panicked while it held the lock. -/
  poisoned : Bool := false
  deriving DecidableEq

namespace InMemoryBackend

def lock (b : InMemoryBackend) : Result Unit :=
  reject (b.poisoned = true) (.backend "idempotency store lock poisoned")

/-- The insertion of both writers: the time of expiry may overflow, under the lock. -/
def insert (now : ℕ) (key : Text) (entry : Entry) (ttl : ℕ) (b : InMemoryBackend) :
    Result Unit × InMemoryBackend :=
  if now + ttl < 2 ^ 64 then
    (.ok (), { b with entries := b.entries.set key (entry, now + ttl) })
  else
    (.error .trap, { b with poisoned := true })

def tryBegin (now : ℕ) (key : Text) (entry : Entry) (ttl : ℕ) (b : InMemoryBackend) :
    Result (Option Entry) × InMemoryBackend :=
  match b.lock with
  | .error fault => (.error fault, b)
  | .ok _ =>
    match b.entries.lookup key with
    | some (existing, expiresAt) =>
      if now < expiresAt then (.ok (some existing), b)
      else
        let (done, b') := b.insert now key entry ttl
        (do done; pure none, b')
    | none =>
      let (done, b') := b.insert now key entry ttl
      (do done; pure none, b')

def put (now : ℕ) (key : Text) (entry : Entry) (ttl : ℕ) (b : InMemoryBackend) :
    Result Unit × InMemoryBackend :=
  match b.lock with
  | .error fault => (.error fault, b)
  | .ok _ => b.insert now key entry ttl

def remove (key : Text) (b : InMemoryBackend) : Result Unit × InMemoryBackend :=
  match b.lock with
  | .error fault => (.error fault, b)
  | .ok _ => (.ok (), { b with entries := b.entries.remove key })

end InMemoryBackend

/-! ## The service -/

structure Claim where
  storageKey : Text
  fingerprint : Text
  deriving DecidableEq

inductive Answer where
  | proceed (claim : Claim)
  | replay (response : StoredResponse)
  deriving DecidableEq

def answer (storageKey fingerprint : Text) : Option Entry → Result Answer
  | none => .ok (.proceed ⟨storageKey, fingerprint⟩)
  | some existing =>
    if existing.fingerprint ≠ fingerprint then .error (.err .keyReuse)
    else match existing with
      | .inProgress _ => .error (.err .inProgress)
      | .completed _ response => .ok (.replay response)

def beginClaim (ttl now : ℕ) (scope : Scope) (key fingerprint : Text) (b : InMemoryBackend) :
    Result Answer × InMemoryBackend :=
  match validateKey key with
  | .error fault => (.error fault, b)
  | .ok _ =>
    let storageKey := scope.storageKey key
    let (found, b') := b.tryBegin now storageKey (.inProgress fingerprint) ttl
    (do let existing ← found; answer storageKey fingerprint existing, b')

def complete (ttl now : ℕ) (claim : Claim) (response : StoredResponse) (b : InMemoryBackend) :
    Result Unit × InMemoryBackend :=
  if ¬ response.isCacheable then b.remove claim.storageKey
  else b.put now claim.storageKey (.completed claim.fingerprint response) ttl

def abandon (claim : Claim) (b : InMemoryBackend) : Result Unit × InMemoryBackend :=
  b.remove claim.storageKey

/-! ## Clients

A claim is handed over by value, so that it is completed or abandoned at most once. -/

inductive Fate where
  | unfinished
  | completed (response : StoredResponse) (time : ℕ)
  | released
  deriving DecidableEq

/-- A claim that was handed out, with the request it was handed out for and the time. -/
structure Ticket where
  scope : Scope
  key : Text
  fingerprint : Text
  takenAt : ℕ
  fate : Fate := .unfinished
  deriving DecidableEq

def Ticket.storageKey (ticket : Ticket) : Text := ticket.scope.storageKey ticket.key

def Ticket.claim (ticket : Ticket) : Claim := ⟨ticket.storageKey, ticket.fingerprint⟩

/-- The backend, all claims that were handed out, and the cacheable responses that claims were
completed with. -/
structure System where
  backend : InMemoryBackend := {}
  tickets : List Ticket := []
  completions : List (Ticket × StoredResponse) := []
  deriving DecidableEq

inductive Action where
  | begin_ (now : ℕ) (scope : Scope) (key fingerprint : Text)
  | complete (now : ℕ) (id : ℕ) (response : StoredResponse)
  | abandon (now : ℕ) (id : ℕ)

def Action.now : Action → ℕ
  | .begin_ now _ _ _ => now
  | .complete now _ _ => now
  | .abandon now _ => now

def System.unfinished (s : System) (id : ℕ) : Outcome Empty Ticket := do
  let ticket ← unwrap s.tickets[id]?
  ensure (ticket.fate = .unfinished)
  pure ticket

def exec (ttl : ℕ) (s : System) : Action → Outcome Empty System
  | .begin_ now scope key fingerprint =>
    let (answered, backend) := beginClaim ttl now scope key fingerprint s.backend
    let tickets := match answered with
      | .ok (.proceed _) => s.tickets ++ [⟨scope, key, fingerprint, now, .unfinished⟩]
      | _ => s.tickets
    pure { s with backend, tickets }
  | .complete now id response => do
    let ticket ← s.unfinished id
    let (_, backend) := complete ttl now ticket.claim response s.backend
    let fate := if response.isCacheable then .completed response now else .released
    let completed := if response.isCacheable then [(ticket, response)] else []
    pure { backend, tickets := s.tickets.set id { ticket with fate }
           completions := s.completions ++ completed }
  | .abandon _ id => do
    let ticket ← s.unfinished id
    let (_, backend) := abandon ticket.claim s.backend
    pure { s with backend, tickets := s.tickets.set id { ticket with fate := .released } }

/-- An operation of a client on a claim it has, or on none. -/
def Step (ttl : ℕ) (s : System) (action : Action) (s' : System) : Prop := exec ttl s action = .ok s'

end Idempotency
