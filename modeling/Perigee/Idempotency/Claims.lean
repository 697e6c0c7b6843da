import Perigee.Idempotency.Service

/-!
# Whether a key runs once

An entry lives as long as the last claim or completion under its key asks for, so a key is handed
out again only when every earlier claim is released or over (`Backed`).  But a release removes the
entry of its key, whoever put it there: a claim that has outlived its entry takes the entry of a
later claim with it.
-/

namespace Idempotency

open Soroban

theorem storageKey_inj {scope scope' : Scope} {key key' : Text}
    (h : scope.storageKey key = scope'.storageKey key') : scope = scope' ∧ key = key' := by
  obtain ⟨_, method, _, token⟩ := scope
  obtain ⟨_, _, _, token'⟩ := scope'
  obtain ⟨users, afterUser⟩ := Fields.sized_inj (List.append_cancel_left h)
  obtain ⟨methods, afterMethod⟩ := Fields.cut token token' (List.cons.inj afterUser).2
  obtain ⟨paths, afterPath⟩ := Fields.sized_inj afterMethod
  subst users methods paths
  exact ⟨rfl, (List.cons.inj afterPath).2⟩

/-- The storage key tells the parts of a request apart, the method up to upper-casing. -/
theorem new_storageKey_eq_iff (casing : Uppercase) {user method path key user' method' path' key' :
    Text} (token : ':' ∉ method) (token' : ':' ∉ method') :
    (Scope.new casing user method path token).storageKey key =
        (Scope.new casing user' method' path' token').storageKey key' ↔
      user = user' ∧ path = path' ∧ key = key' ∧
        casing.toUppercase method = casing.toUppercase method' := by
  constructor
  · intro h
    obtain ⟨scopes, keys⟩ := storageKey_inj h
    obtain ⟨users, methods, paths⟩ := Scope.mk.inj scopes
    exact ⟨users, paths, keys, methods⟩
  · rintro ⟨rfl, rfl, rfl, methods⟩
    simp only [Scope.new, methods]

def asciiUppercase : Uppercase where
  upper c := [c.toUpper]
  colon c mem := by
    have same := List.mem_singleton.1 mem
    unfold Char.toUpper at same
    split at same
    · rename_i lower
      have code : (58 : UInt32) = c.val + (65 - 97) := congrArg Char.val same
      exact absurd (eq_sub_of_add_eq code.symm ▸ lower.1) (by decide)
    · exact same.symm

def uuid : Text := "123e4567-e89b-12d3-a456-426614174000".toList

/-- The case of the method does not matter, and a colon of the user is not one of the path. -/
theorem get_storageKey_of_any_case : validateKey uuid = .ok () ∧
    (Scope.new asciiUppercase ['1'] ['g', 'e', 't'] ['/'] (by decide)).storageKey uuid =
      (Scope.new asciiUppercase ['1'] ['G', 'E', 'T'] ['/'] (by decide)).storageKey uuid ∧
    (Scope.new asciiUppercase ['1', ':'] ['g', 'e', 't'] ['/'] (by decide)).storageKey uuid ≠
      (Scope.new asciiUppercase ['1'] ['g', 'e', 't'] [':', '/'] (by decide)).storageKey uuid := by
  refine ⟨by decide +kernel, ?_, fun same => ?_⟩
  · exact (new_storageKey_eq_iff asciiUppercase (by decide) (by decide)).2 ⟨rfl, rfl, rfl, rfl⟩
  · have users := ((new_storageKey_eq_iff asciiUppercase (by decide) (by decide)).1 same).1
    exact absurd users (by decide)

/-- When a claim that is not released no longer stands in the way of the next. -/
def Ticket.due (ttl : ℕ) (ticket : Ticket) : Option ℕ :=
  match ticket.fate with
  | .unfinished => some (ticket.takenAt + ttl)
  | .completed _ time => some (time + ttl)
  | .released => none

/-- The claim was released, or the time to live has passed since it was completed, or since it was
taken if it is unfinished. -/
def Ticket.Over (ttl now : ℕ) (ticket : Ticket) : Prop := ∀ t ∈ ticket.due ttl, t ≤ now

/-- Every other claim of the key of a claim is over. -/
def OthersOver (ttl : ℕ) (s : System) (now id : ℕ) : Prop :=
  ∀ ticket, s.tickets[id]? = some ticket → ∀ other j, s.tickets[j]? = some other → j ≠ id →
    other.storageKey = ticket.storageKey → other.Over ttl now

def Action.releases : Action → Option ℕ
  | .begin_ _ _ _ _ => none
  | .complete _ id response => if response.isCacheable then none else some id
  | .abandon _ id => some id

/-- A claim is released only when every other claim of its key is over. -/
def Alone (ttl : ℕ) (s : Timed System) (action : Action) : Prop :=
  ∀ id ∈ action.releases, OthersOver ttl s.state action.now id

/-! ## What an operation does -/

section Operations

variable {ttl now : ℕ} {scope : Scope} {key fingerprint : Text} {b b' : InMemoryBackend}

def InMemoryBackend.Free (b : InMemoryBackend) (now : ℕ) (storageKey : Text) : Prop :=
  ∀ entry expiresAt, b.entries.lookup storageKey = some (entry, expiresAt) → expiresAt ≤ now

def InMemoryBackend.claimed (b : InMemoryBackend) (storageKey fingerprint : Text)
    (expiresAt : ℕ) : InMemoryBackend :=
  { b with entries := b.entries.set storageKey (.inProgress fingerprint, expiresAt) }

theorem beginClaim_of_free (valid : validateKey key = .ok ()) (sane : b.poisoned = false)
    (free : b.Free now (scope.storageKey key)) (fits : now + ttl < 2 ^ 64) :
    beginClaim ttl now scope key fingerprint b =
      (.ok (.proceed ⟨scope.storageKey key, fingerprint⟩),
        b.claimed (scope.storageKey key) fingerprint (now + ttl)) := by
  have unlocked : b.lock = .ok () := by simp [InMemoryBackend.lock, reject, sane]
  have inserted : b.insert now (scope.storageKey key) (.inProgress fingerprint) ttl =
      (.ok (), b.claimed (scope.storageKey key) fingerprint (now + ttl)) := if_pos fits
  simp only [beginClaim, valid, InMemoryBackend.tryBegin, unlocked]
  cases found : b.entries.lookup (scope.storageKey key) with
  | none => simp only [inserted]; rfl
  | some stored =>
    have expired : ¬ now < stored.2 := not_lt.2 (free stored.1 stored.2 found)
    simp only [inserted, if_neg expired]
    rfl

/-- A request that begins takes a free key, or changes no entry; what it replays is stored. -/
theorem beginClaim_cases {answered : Result Answer}
    (h : beginClaim ttl now scope key fingerprint b = (answered, b')) :
    (validateKey key = .ok () ∧ b.poisoned = false ∧ b.Free now (scope.storageKey key) ∧
      answered = .ok (.proceed ⟨scope.storageKey key, fingerprint⟩) ∧
      b' = b.claimed (scope.storageKey key) fingerprint (now + ttl)) ∨
    (∀ claim, answered ≠ .ok (.proceed claim)) ∧ (b'.poisoned = false → b' = b) ∧
      ∀ response, answered = .ok (.replay response) → b.poisoned = false ∧
        ∃ expiresAt, b.entries.lookup (scope.storageKey key) =
          some (.completed fingerprint response, expiresAt) := by
  obtain rfl : answered = (beginClaim ttl now scope key fingerprint b).1 := by rw [h]
  obtain rfl : b' = (beginClaim ttl now scope key fingerprint b).2 := by rw [h]
  cases valid : validateKey key with
  | error => right; simp [beginClaim, valid]
  | ok =>
  by_cases poisoned : b.poisoned = true
  · right
    simp [beginClaim, valid, InMemoryBackend.tryBegin, InMemoryBackend.lock, reject, poisoned,
      bind, Except.bind]
  have sane : b.poisoned = false := by simpa using poisoned
  have unlocked : b.lock = .ok () := by simp [InMemoryBackend.lock, reject, sane]
  by_cases free : b.Free now (scope.storageKey key)
  · by_cases fits : now + ttl < 2 ^ 64
    · rw [beginClaim_of_free valid sane free fits]
      exact .inl ⟨rfl, sane, free, rfl, rfl⟩
    · -- the time of expiry overflows under the lock
      have failed : b.insert now (scope.storageKey key) (.inProgress fingerprint) ttl =
          (.error .trap, { b with poisoned := true }) := if_neg fits
      right
      simp only [beginClaim, valid, InMemoryBackend.tryBegin, unlocked]
      cases found : b.entries.lookup (scope.storageKey key) with
      | none => simp [failed, bind, Except.bind]
      | some stored =>
        have expired : ¬ now < stored.2 := not_lt.2 (free stored.1 stored.2 found)
        simp [failed, expired, bind, Except.bind]
  · right
    simp only [InMemoryBackend.Free, not_forall, not_le] at free
    obtain ⟨entry, expiresAt, found, live⟩ := free
    simp only [beginClaim, valid, InMemoryBackend.tryBegin, unlocked, found, if_pos live, bind,
      Except.bind, answer, sane]
    split_ifs with same
    · simp
    · cases entry with
      | inProgress => simp
      | completed stored =>
        obtain rfl : stored = fingerprint := not_not.1 same
        simp

theorem remove_cases (storageKey : Text) : (b.remove storageKey).2.poisoned = b.poisoned ∧
    (b.poisoned = false →
      (b.remove storageKey).2.entries = b.entries.remove storageKey) := by
  cases sane : b.poisoned <;> simp [InMemoryBackend.remove, InMemoryBackend.lock, reject, sane]

theorem put_cases (storageKey : Text) (entry : Entry) :
    (b.put now storageKey entry ttl).2.poisoned = false → b.poisoned = false ∧
      (b.put now storageKey entry ttl).2.entries =
        b.entries.set storageKey (entry, now + ttl) := by
  cases sane : b.poisoned with
  | true => simp [InMemoryBackend.put, InMemoryBackend.lock, reject, sane]
  | false =>
    simp only [InMemoryBackend.put, InMemoryBackend.lock, reject, InMemoryBackend.insert]
    split_ifs <;> simp_all

end Operations

/-! ## What every run keeps -/

/-- The claims of an unpoisoned backend: each is over, or its key has an entry that lives as long;
and what is stored as completed was completed last under its key. -/
structure Backed (ttl : ℕ) (s : Timed System) : Prop where
  tickets : ∀ ticket ∈ s.state.tickets, validateKey ticket.key = .ok () ∧
    ∀ t ∈ ticket.due ttl, t ≤ s.now + ttl
  last : s.state.backend.poisoned = false → ∀ key fingerprint response expiresAt,
    s.state.backend.entries.lookup key = some (.completed fingerprint response, expiresAt) →
    ∃ ticket : Ticket, ticket.fingerprint = fingerprint ∧
      (s.state.completions.filter fun done => done.1.storageKey = key).getLast? =
        some (ticket, response)

/-- Every claim that is not over has an entry that lives as long. -/
def Live (ttl : ℕ) (s : Timed System) : Prop :=
  s.state.backend.poisoned = false → ∀ ticket ∈ s.state.tickets, ∀ t ∈ ticket.due ttl,
    t ≤ s.now ∨ ∃ entry expiresAt,
      s.state.backend.entries.lookup ticket.storageKey = some (entry, expiresAt) ∧ t ≤ expiresAt

section Runs

variable {ttl : ℕ} {s s' : Timed System} {action : Action}

theorem mem_set_cases {α : Type} {l : List α} {i : ℕ} {x y : α} (mem : y ∈ l.set i x) :
    y = x ∨ ∃ j, j ≠ i ∧ l[j]? = some y := by
  obtain ⟨j, found⟩ := List.mem_iff_getElem?.1 mem
  rw [List.getElem?_set] at found
  split_ifs at found with same inside
  · exact .inl (Option.some.inj found).symm
  · exact .inr ⟨j, Ne.symm same, found⟩

inductive Effect (ttl : ℕ) (s : System) (action : Action) : System → Prop
  | taken (scope : Scope) (key fingerprint : Text) (keeps : action.releases = none)
      (valid : validateKey key = .ok ())
      (free : s.backend.Free action.now (scope.storageKey key)) : Effect ttl s action { s with
        backend := s.backend.claimed (scope.storageKey key) fingerprint (action.now + ttl)
        tickets := s.tickets ++ [⟨scope, key, fingerprint, action.now, .unfinished⟩] }
  | idle (backend : InMemoryBackend) (keeps : action.releases = none)
      (same : backend.poisoned = false → backend = s.backend) :
      Effect ttl s action { s with backend }
  | completed (id : ℕ) (ticket : Ticket) (response : StoredResponse)
      (keeps : action.releases = none) (found : s.tickets[id]? = some ticket) :
      Effect ttl s action {
        backend := (s.backend.put action.now ticket.storageKey
          (.completed ticket.fingerprint response) ttl).2
        tickets := s.tickets.set id { ticket with fate := .completed response action.now }
        completions := s.completions ++ [(ticket, response)] }
  | released (id : ℕ) (ticket : Ticket) (found : s.tickets[id]? = some ticket)
      (releases : action.releases = some id) : Effect ttl s action { s with
        backend := (s.backend.remove ticket.storageKey).2
        tickets := s.tickets.set id { ticket with fate := .released } }

theorem exec_effect {s s' : System} (h : exec ttl s action = .ok s') : Effect ttl s action s' := by
  cases action with
  | begin_ now scope key fingerprint =>
    rw [exec] at h
    rcases begun : beginClaim ttl now scope key fingerprint s.backend with ⟨_, backend⟩
    rw [begun] at h
    obtain ⟨valid, -, free, rfl, rfl⟩ | ⟨refused, same, -⟩ := beginClaim_cases begun
    · rw [← pure_ok_iff.1 h]
      exact .taken scope key fingerprint rfl valid free
    · rw [← pure_ok_iff.1 h]
      split
      · exact absurd rfl (refused _)
      · exact .idle backend rfl same
  | complete _ id response =>
    simp only [exec, System.unfinished, ok_iff] at h
    obtain ⟨ticket, ⟨_, found, _, -, rfl⟩, rfl⟩ := h
    simp only [complete]
    split_ifs with cacheable
    · exact .completed id _ response (if_pos cacheable) found
    · rw [List.append_nil]
      exact .released id _ found (if_neg cacheable)
  | abandon _ id =>
    simp only [exec, System.unfinished, ok_iff] at h
    obtain ⟨ticket, ⟨_, found, _, -, rfl⟩, rfl⟩ := h
    exact .released id _ found rfl

theorem Backed.step (backed : Backed ttl s)
    (h : Timed.Step Action.now (Step ttl) s action s') : Backed ttl s' := by
  obtain ⟨_, _⟩ := s'
  obtain ⟨later, rfl, done⟩ := h
  have older (ticket) (mem : ticket ∈ s.state.tickets) : validateKey ticket.key = .ok () ∧
      ∀ t ∈ ticket.due ttl, t ≤ action.now + ttl :=
    ⟨(backed.tickets ticket mem).1, fun t due =>
      ((backed.tickets ticket mem).2 t due).trans (Nat.add_le_add_right later _)⟩
  have edited {i : ℕ} {ticket : Ticket} {fate : Fate} (there : s.state.tickets[i]? = some ticket)
      (due : ∀ t ∈ Ticket.due ttl { ticket with fate }, t ≤ action.now + ttl) (other)
      (mem : other ∈ s.state.tickets.set i { ticket with fate }) :
      validateKey other.key = .ok () ∧ ∀ t ∈ other.due ttl, t ≤ action.now + ttl := by
    obtain rfl | ⟨j, -, at'⟩ := mem_set_cases mem
    · exact ⟨(older ticket (List.mem_of_getElem? there)).1, due⟩
    · exact older other (List.mem_of_getElem? at')
  cases exec_effect done with
  | taken _ _ _ _ valid =>
    refine ⟨?_, fun sane key' stored response expiresAt found => ?_⟩
    · simp only [List.forall_mem_append, List.forall_mem_singleton]
      exact ⟨older, valid, by simp [Ticket.due]⟩
    · simp only [InMemoryBackend.claimed, Store.lookup_set] at found
      split_ifs at found
      · cases found
      · exact backed.last sane key' stored response expiresAt found
  | idle _ _ same =>
    refine ⟨older, fun sane => ?_⟩
    obtain rfl := same sane
    exact backed.last sane
  | completed _ ticket _ _ there =>
    refine ⟨edited there (by simp [Ticket.due]),
      fun sane key' stored response' expiresAt found => ?_⟩
    obtain ⟨sane₀, entries⟩ := put_cases _ _ sane
    rw [entries, Store.lookup_set] at found
    split_ifs at found with same
    · obtain ⟨⟨rfl, rfl⟩, -⟩ := found
      exact ⟨ticket, rfl, by simp [same]⟩
    · obtain ⟨earlier, print, last⟩ := backed.last sane₀ key' stored response' expiresAt found
      refine ⟨earlier, print, ?_⟩
      simpa [Ne.symm same] using last
  | released _ ticket there =>
    refine ⟨edited there (by simp [Ticket.due]),
      fun sane key' stored response expiresAt found => ?_⟩
    obtain ⟨same, entries⟩ := remove_cases (b := s.state.backend) ticket.storageKey
    have sane₀ := same.symm.trans sane
    rw [entries sane₀, Store.lookup_remove] at found
    split_ifs at found
    exact backed.last sane₀ key' stored response expiresAt found

theorem Live.step (live : Live ttl s) (backed : Backed ttl s) (alone : Alone ttl s action)
    (h : Timed.Step Action.now (Step ttl) s action s') : Live ttl s' := by
  obtain ⟨_, _⟩ := s'
  obtain ⟨later, rfl, done⟩ := h
  cases exec_effect done with
  | taken scope key _ _ _ free =>
    intro sane
    simp only [List.forall_mem_append, List.forall_mem_singleton, InMemoryBackend.claimed]
    constructor
    · intro ticket mem t due
      rcases live sane ticket mem t due with passed | ⟨entry, expiresAt, found, le⟩
      · exact .inl (passed.trans later)
      · by_cases same : ticket.storageKey = scope.storageKey key
        · rw [same] at found
          exact .inl (le.trans (free entry expiresAt found))
        · exact .inr ⟨entry, expiresAt, by rw [Store.lookup_set_of_ne _ _ same, found], le⟩
    · intro t due
      obtain rfl : action.now + ttl = t := by simpa [Ticket.due] using due
      exact .inr ⟨_, _, Store.lookup_set_self _ _ _, le_rfl⟩
  | idle _ _ same =>
    intro sane ticket mem t due
    obtain rfl := same sane
    exact (live sane ticket mem t due).imp_left later.trans'
  | completed =>
    intro sane other mem t due
    obtain ⟨sane₀, entries⟩ := put_cases _ _ sane
    rw [entries, Store.lookup_set]
    obtain rfl | ⟨j, -, at'⟩ := mem_set_cases mem
    · obtain rfl : action.now + ttl = t := by simpa [Ticket.due] using due
      exact .inr ⟨_, _, if_pos rfl, le_rfl⟩
    · have mem' := List.mem_of_getElem? at'
      split_ifs with same
      · exact .inr ⟨_, _, rfl,
          ((backed.tickets other mem').2 t due).trans (Nat.add_le_add_right later _)⟩
      · exact (live sane₀ other mem' t due).imp_left later.trans'
  | released id ticket there releases =>
    intro sane other mem t due
    obtain ⟨poisoned, entries⟩ := remove_cases (b := s.state.backend) ticket.storageKey
    have sane₀ := poisoned.symm.trans sane
    obtain rfl | ⟨j, different, at'⟩ := mem_set_cases mem
    · simp [Ticket.due] at due
    · by_cases same : other.storageKey = ticket.storageKey
      · exact .inl (alone id releases ticket there other j at' different same t due)
      · rw [entries sane₀, Store.lookup_remove_of_ne _ same]
        exact (live sane₀ other (List.mem_of_getElem? at') t due).imp_left later.trans'

theorem backed_of_run {actions : List Action}
    (run : Run (Timed.Step Action.now (Step ttl)) { state := {} } actions s) : Backed ttl s :=
  run.invariant ⟨by simp, by simp⟩ fun _ _ _ => Backed.step

/-- After any run of clients: what is replayed is the response that a claim of the same request was
completed with last.  If claims are released only when the other claims of their key are over, a key
is handed out only when all earlier claims of it are over; any other release breaks that. -/
theorem keys_run_once {actions : List Action}
    (run : Run (Timed.Step Action.now (Step ttl)) { state := {} } actions s) :
    (∀ now scope key fingerprint response b',
      beginClaim ttl now scope key fingerprint s.state.backend = (.ok (.replay response), b') →
      ∃ ticket : Ticket, ticket.fingerprint = fingerprint ∧
        (s.state.completions.filter fun done =>
          done.1.scope = scope ∧ done.1.key = key).getLast? = some (ticket, response)) ∧
    (Run (Guarded (Alone ttl) (Timed.Step Action.now (Step ttl))) { state := {} } actions s →
      ∀ now scope key fingerprint claim b', s.now ≤ now →
        beginClaim ttl now scope key fingerprint s.state.backend = (.ok (.proceed claim), b') →
        ∀ ticket ∈ s.state.tickets, ticket.scope = scope → ticket.key = key →
          ticket.Over ttl now) ∧
    ∀ action s', Timed.Step Action.now (Step ttl) s action s' → ¬ Alone ttl s action →
      s'.state.backend.poisoned = false → action.now + ttl < 2 ^ 64 →
      ∃ ticket ∈ s'.state.tickets, ¬ ticket.Over ttl action.now ∧
        ∀ fingerprint, ∃ claim b', beginClaim ttl action.now ticket.scope ticket.key fingerprint
          s'.state.backend = (.ok (.proceed claim), b') := by
  have backed := backed_of_run run
  refine ⟨fun now scope key fingerprint response b' h => ?_, fun guarded => ?_, ?_⟩
  · obtain ⟨-, -, -, proceeded, -⟩ | ⟨-, -, replayed⟩ := beginClaim_cases h
    · cases proceeded
    · obtain ⟨sane, expiresAt, stored⟩ := replayed response rfl
      obtain ⟨ticket, print, last⟩ := backed.last sane _ _ _ _ stored
      refine ⟨ticket, print, ?_⟩
      rw [← last]
      congr 1
      refine List.filter_congr fun done _ => decide_eq_decide.2 ⟨?_, storageKey_inj⟩
      rintro ⟨scopes, keys⟩
      rw [Ticket.storageKey, scopes, keys]
  · have live : Live ttl s ∧ Backed ttl s := by
      refine guarded.invariant (P := fun s => Live ttl s ∧ Backed ttl s)
        ⟨by simp [Live], by simp, by simp⟩ ?_
      rintro _ action _ ⟨live, backed⟩ ⟨alone, last⟩
      exact ⟨live.step backed alone last, backed.step last⟩
    intro now scope key fingerprint claim b' later h ticket mem scopes keys t due
    obtain ⟨-, sane, free, -, -⟩ | ⟨refused, -⟩ := beginClaim_cases h
    · rcases live.1 sane ticket mem t due with passed | ⟨entry, expiresAt, found, le⟩
      · exact passed.trans later
      · rw [Ticket.storageKey, scopes, keys] at found
        exact le.trans (free entry expiresAt found)
    · exact absurd rfl (refused claim)
  · intro action s' last crowded sane fits
    simp only [Alone, not_forall] at crowded
    obtain ⟨_, releases, crowded⟩ := crowded
    obtain ⟨_, _⟩ := s'
    obtain ⟨-, rfl, done⟩ := last
    simp only [OthersOver, not_forall] at crowded
    obtain ⟨ticket, found, other, j, at', different, same, running⟩ := crowded
    cases exec_effect done with
    | taken _ _ _ keeps | idle _ keeps | completed _ _ _ keeps =>
      cases keeps.symm.trans releases
    | released _ _ there releases' =>
      obtain rfl := Option.mem_unique releases releases'
      obtain rfl := Option.mem_unique found there
      obtain ⟨poisoned, entries⟩ := remove_cases (b := s.state.backend) ticket.storageKey
      have free : ((s.state.backend.remove ticket.storageKey).2).Free action.now
          (other.scope.storageKey other.key) := by
        intro _ _ stored
        rw [entries (poisoned.symm.trans sane), ← same, Ticket.storageKey,
          Store.lookup_remove_self] at stored
        cases stored
      refine ⟨other, List.mem_of_getElem? (i := j) ?_, running, fun fingerprint =>
        ⟨_, _, beginClaim_of_free (backed.tickets other (List.mem_of_getElem? at')).1 sane free
          fits⟩⟩
      rw [List.getElem?_set_ne (Ne.symm different), at']

end Runs

/-! ## Three requests -/

def endpoint : Scope := ⟨['u'], ['P'], ['/'], by decide⟩

def request (now : ℕ) : Action := .begin_ now endpoint uuid ['f']

/-- The second request gets the key when the time to live of the first is over, and completes. -/
def inTurn : List Action := [request 0, request 10, .complete 12 1 ⟨200, [], ['r']⟩]

theorem inTurn_over : ∃ s claim b',
    Run (Guarded (Alone 10) (Timed.Step Action.now (Step 10))) { state := {} } inTurn s ∧
    beginClaim 10 22 endpoint uuid ['f'] s.state.backend = (.ok (.proceed claim), b') ∧
    s.state.tickets.length = 2 ∧ ∀ ticket ∈ s.state.tickets, ticket.Over 10 22 := by
  obtain ⟨s, done, begun, now, two, same⟩ : ∃ s, inTurn.foldlM
        (execIf (fun _ action => action.releases = none) (Timed.perform Action.now (exec 10)))
        { state := {} } = .ok s ∧
      (beginClaim 10 22 endpoint uuid ['f'] s.state.backend).1 =
        .ok (.proceed ⟨endpoint.storageKey uuid, ['f']⟩) ∧
      s.now ≤ 22 ∧ s.state.tickets.length = 2 ∧
      ∀ ticket ∈ s.state.tickets, ticket.scope = endpoint ∧ ticket.key = uuid := by
    decide +kernel
  have guarded : Run (Guarded (Alone 10) (Timed.Step Action.now (Step 10))) { state := {} }
      inTurn s := by
    refine Run.of_foldlM (fun _ action _ passed => ?_) done
    obtain ⟨keeps, performed⟩ := execIf_ok_iff.1 passed
    refine ⟨fun _ mem => ?_, Timed.perform_step (fun _ _ _ h => h) performed⟩
    rw [keeps] at mem
    cases mem
  have run := guarded.mono fun _ _ _ step => step.2
  exact ⟨s, _, _, guarded, Prod.ext begun rfl, two, fun ticket mem =>
    (keys_run_once run).2.1 guarded 22 endpoint uuid ['f'] _ _ now (Prod.ext begun rfl) ticket mem
      (same ticket mem).1 (same ticket mem).2⟩

/-- A first request that outlives its entry is abandoned while the second one is running; the third
one proceeds two seconds after the second has taken the key. -/
theorem late_abandon_frees_key : ∃ s claim b',
    Run (Timed.Step Action.now (Step 10)) { state := {} }
      [request 0, request 10, .abandon 11 0] s ∧
    beginClaim 10 12 endpoint uuid ['f'] s.state.backend = (.ok (.proceed claim), b') ∧
    s.state.tickets[1]? = some ⟨endpoint, uuid, ['f'], 10, .unfinished⟩ := by
  obtain ⟨s, done, begun, second⟩ : ∃ s, [request 0, request 10, .abandon 11 0].foldlM
        (Timed.perform Action.now (exec 10)) { state := {} } = .ok s ∧
      (beginClaim 10 12 endpoint uuid ['f'] s.state.backend).1 =
        .ok (.proceed ⟨endpoint.storageKey uuid, ['f']⟩) ∧
      s.state.tickets[1]? = some ⟨endpoint, uuid, ['f'], 10, .unfinished⟩ := by
    decide +kernel
  exact ⟨s, _, _, Run.of_foldlM (fun _ _ _ => Timed.perform_step fun _ _ _ h => h) done,
    Prod.ext begun rfl, second⟩

end Idempotency
