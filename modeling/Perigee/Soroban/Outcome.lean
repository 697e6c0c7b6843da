import Mathlib

/-!
# Outcomes of contract calls

A contract call returns a value, fails with an error of the contract, or is trapped by the host (a
panic, an arithmetic overflow, a failed authorization).  The host discards every write of a call
that does not return.  This file has the inversion rules for successful outcomes and the machine
arithmetic of the contracts.

That the plain operators trap on overflow is an assumption about the build.  It holds in the dev and
test profiles; the workspace does not turn overflow checks on for release, where they would wrap.
-/

namespace Soroban

/-- Why a call fails: an error of the contract, or a trap of the host. -/
inductive Fault (ε : Type) where
  | err (e : ε)
  | trap
  deriving DecidableEq

/-- The outcome of a call with errors `ε` and result `α`. -/
abbrev Outcome (ε α : Type) := Except (Fault ε) α

variable {ε α β : Type}

theorem bind_ok_iff {call : Except ε α} {rest : α → Except ε β} {result : β} :
    (do let a ← call; rest a) = .ok result ↔ ∃ a, call = .ok a ∧ rest a = .ok result := by
  rcases call with _ | a
  · exact iff_of_false (fun h => nomatch h) (fun ⟨_, h, _⟩ => nomatch h)
  · exact ⟨fun h => ⟨a, rfl, h⟩, fun ⟨_, h, hr⟩ => by cases h; exact hr⟩

theorem bind_succeeds {call : Outcome ε α} {rest : α → Outcome ε β} {a : α} (first : call = .ok a)
    (next : ∃ result, rest a = .ok result) : ∃ result, (do let a ← call; rest a) = .ok result := by
  obtain ⟨result, h⟩ := next
  exact ⟨result, bind_ok_iff.2 ⟨a, first, h⟩⟩

theorem bind_of_ok {call : Outcome ε α} {rest : α → Outcome ε β} {a : α} (first : call = .ok a) :
    (do let a ← call; rest a) = rest a := by
  rw [first]
  rfl

theorem pure_ok_iff {a b : α} : (pure a : Outcome ε α) = .ok b ↔ a = b :=
  ⟨fun h => by cases h; rfl, fun h => by rw [h]; rfl⟩

theorem map_ok_iff {f : α → β} {x : Except ε α} {b : β} :
    f <$> x = .ok b ↔ ∃ a, x = .ok a ∧ f a = b := by
  rcases x with _ | a
  · exact iff_of_false (fun h => nomatch h) (fun ⟨_, h, _⟩ => nomatch h)
  · simp

theorem map_snd_ok_iff {x : Outcome ε (α × β)} {b : β} :
    Prod.snd <$> x = .ok b ↔ ∃ a, x = .ok (a, b) := by
  rcases x with _ | ⟨a, _⟩
  · exact iff_of_false (fun h => nomatch h) (fun ⟨_, h⟩ => nomatch h)
  · simp

/-- Whether a computation succeeds is decided by running it. -/
instance decidableOk (x : Outcome ε α) : Decidable (∃ a, x = .ok a) :=
  match x with
  | .ok a => isTrue ⟨a, rfl⟩
  | .error _ => isFalse (by simp)

/-- A decidable property of the result of a successful computation is decided by running it. -/
instance decidableOkAnd (x : Outcome ε α) (p : α → Prop) [DecidablePred p] :
    Decidable (∃ a, x = .ok a ∧ p a) :=
  match x with
  | .ok a => decidable_of_iff (p a) (by simp)
  | .error _ => isFalse (by simp)

/-- A decidable property of the result of any successful computation is decided by running it. -/
instance decidableOkForall (x : Outcome ε α) (p : α → Prop) [DecidablePred p] :
    Decidable (∀ a, x = .ok a → p a) :=
  match x with
  | .ok a => decidable_of_iff (p a) (by simp)
  | .error _ => isTrue (by simp)

/-- A call from a state, as the host runs it: a call that fails leaves the state as it was. -/
def attempt (call : Outcome ε (α × β)) (s : β) : Outcome ε α × β :=
  match call with
  | .ok (a, s') => (.ok a, s')
  | .error fault => (.error fault, s)

section Alike

variable {γ σ ν : Type} {view : σ → ν} {s s' t t' : σ}

/-- Two calls from two states respond alike: they return the same, and the states after them look
the same through `view`. -/
def Alike (view : σ → ν) (x : Outcome ε (α × σ)) (s : σ) (y : Outcome ε (α × σ)) (t : σ) : Prop :=
  (attempt x s).1 = (attempt y t).1 ∧ view (attempt x s).2 = view (attempt y t).2

theorem Alike.bind {c : Outcome ε γ} {f g : γ → Outcome ε (α × σ)} (same : view s = view t)
    (next : ∀ a, Alike view (f a) s (g a) t) :
    Alike view (do let a ← c; f a) s (do let a ← c; g a) t := by
  rcases c with _ | a
  · exact ⟨rfl, same⟩
  · exact next a

theorem Alike.pure {a : α} (same : view s' = view t') :
    Alike view (Pure.pure (a, s') : Outcome ε (α × σ)) s (Pure.pure (a, t')) t :=
  ⟨rfl, same⟩

end Alike

/-! ## Guards -/

/-- Return the error `e` when `c` holds. -/
def reject (c : Prop) [Decidable c] (e : ε) : Outcome ε Unit :=
  if c then .error (.err e) else .ok ()

theorem reject_ok_iff {c : Prop} [Decidable c] {e : ε} {u : Unit} : reject c e = .ok u ↔ ¬ c := by
  unfold reject
  split_ifs with h <;> simp [h]

/-- `assert!`, or a `panic!` unless `c` holds: trap when it does not. -/
def ensure (c : Prop) [Decidable c] : Outcome ε Unit :=
  if c then .ok () else .error .trap

theorem ensure_ok_iff {c : Prop} [Decidable c] {u : Unit} :
    (ensure c : Outcome ε Unit) = .ok u ↔ c := by
  unfold ensure
  split_ifs with h <;> simp [h]

theorem ite_ok_iff {c : Prop} [Decidable c] {x y : α} {fault : Fault ε} :
    (if c then .ok x else .error fault : Outcome ε α) = .ok y ↔ c ∧ x = y := by
  split_ifs with h
  · simp only [h, true_and, Except.ok.injEq]
  · simp only [h, false_and]

def okOr (o : Option α) (e : ε) : Outcome ε α :=
  match o with
  | some a => .ok a
  | none => .error (.err e)

theorem okOr_ok_iff {o : Option α} {e : ε} {a : α} : okOr o e = .ok a ↔ o = some a := by
  cases o <;> simp [okOr]

/-- `Option::unwrap`: a missing value traps. -/
def unwrap (o : Option α) : Outcome ε α :=
  match o with
  | some a => .ok a
  | none => .error .trap

theorem unwrap_ok_iff {o : Option α} {a : α} : (unwrap o : Outcome ε α) = .ok a ↔ o = some a := by
  cases o <;> simp [unwrap]

/-! ## Loops -/

/-- A loop over a list that collects results succeeds where every pass does. -/
theorem mapM_ok_iff {f : α → Outcome ε β} {l : List α} {out : List β} :
    l.mapM f = .ok out ↔ List.Forall₂ (fun a b => f a = .ok b) l out := by
  induction l generalizing out with
  | nil => rw [List.mapM_nil, pure_ok_iff, List.forall₂_nil_left_iff, eq_comm]
  | cons a l ih =>
    simp only [List.mapM_cons, bind_ok_iff, pure_ok_iff, ih, List.forall₂_cons_left_iff]
    constructor
    · rintro ⟨b, first, rest, others, rfl⟩
      exact ⟨b, rest, first, others, rfl⟩
    · rintro ⟨b, rest, first, others, rfl⟩
      exact ⟨b, first, rest, others, rfl⟩

/-! ## Signed machine integers -/

def IsI128 (x : ℤ) : Prop := -2 ^ 127 ≤ x ∧ x < 2 ^ 127

instance (x : ℤ) : Decidable (IsI128 x) := inferInstanceAs (Decidable (_ ∧ _))

/-- The result of a plain `i128` operator: overflow traps. -/
def i128 (x : ℤ) : Outcome ε ℤ := if IsI128 x then .ok x else .error .trap

/-- The result of a `checked_` operator on `i128`: overflow is the error `e`. -/
def checkedI128 (x : ℤ) (e : ε) : Outcome ε ℤ := if IsI128 x then .ok x else .error (.err e)

/-- The `i128` quotient, truncated toward zero. -/
def divI128 (a b : ℤ) : Outcome ε ℤ := if b = 0 then .error .trap else i128 (a.tdiv b)

theorem i128_ok_iff {x y : ℤ} : (i128 x : Outcome ε ℤ) = .ok y ↔ IsI128 x ∧ x = y :=
  ite_ok_iff

theorem checkedI128_ok_iff {x y : ℤ} {e : ε} : checkedI128 x e = .ok y ↔ IsI128 x ∧ x = y :=
  ite_ok_iff

theorem divI128_ok_iff {a b y : ℤ} :
    (divI128 a b : Outcome ε ℤ) = .ok y ↔ b ≠ 0 ∧ IsI128 (a.tdiv b) ∧ a.tdiv b = y := by
  unfold divI128
  split_ifs with h <;> simp [h, i128_ok_iff]

/-- The result of a `saturating_` operator on `i128`. -/
def saturateI128 (x : ℤ) : ℤ := max (-2 ^ 127) (min (2 ^ 127 - 1) x)

/-! ## Unsigned machine integers -/

def u64 (x : ℕ) : Outcome ε ℕ := if x < 2 ^ 64 then .ok x else .error .trap

theorem u64_ok_iff {x y : ℕ} : (u64 x : Outcome ε ℕ) = .ok y ↔ x < 2 ^ 64 ∧ x = y :=
  ite_ok_iff

def u32 (x : ℕ) : Outcome ε ℕ := if x < 2 ^ 32 then .ok x else .error .trap

theorem u32_ok_iff {x y : ℕ} : (u32 x : Outcome ε ℕ) = .ok y ↔ x < 2 ^ 32 ∧ x = y :=
  ite_ok_iff

/-- The result of a `checked_` operator on `u32`: overflow is the error `e`. -/
def checkedU32 (x : ℕ) (e : ε) : Outcome ε ℕ := if x < 2 ^ 32 then .ok x else .error (.err e)

theorem checkedU32_ok_iff {x y : ℕ} {e : ε} : checkedU32 x e = .ok y ↔ x < 2 ^ 32 ∧ x = y :=
  ite_ok_iff

def u128 (x : ℕ) : Outcome ε ℕ := if x < 2 ^ 128 then .ok x else .error .trap

theorem u128_ok_iff {x y : ℕ} : (u128 x : Outcome ε ℕ) = .ok y ↔ x < 2 ^ 128 ∧ x = y :=
  ite_ok_iff

/-- The plain `u128` subtraction: a negative difference traps. -/
def subU128 (a b : ℕ) : Outcome ε ℕ := if b ≤ a then .ok (a - b) else .error .trap

theorem subU128_ok_iff {a b y : ℕ} : (subU128 a b : Outcome ε ℕ) = .ok y ↔ b ≤ a ∧ a - b = y :=
  ite_ok_iff

/-- `checked_sub` on unsigned integers: a negative difference is the error `e`. -/
def checkedSub (a b : ℕ) (e : ε) : Outcome ε ℕ := if b ≤ a then .ok (a - b) else .error (.err e)

theorem checkedSub_ok_iff {a b y : ℕ} {e : ε} : checkedSub a b e = .ok y ↔ b ≤ a ∧ a - b = y :=
  ite_ok_iff

/-- `checked_add` on `u128`: overflow is the error `e`. -/
def checkedAddU128 (a b : ℕ) (e : ε) : Outcome ε ℕ :=
  if a + b < 2 ^ 128 then .ok (a + b) else .error (.err e)

theorem checkedAddU128_ok_iff {a b y : ℕ} {e : ε} :
    checkedAddU128 a b e = .ok y ↔ a + b < 2 ^ 128 ∧ a + b = y :=
  ite_ok_iff

@[irreducible] def wrappingSub (a b : ℕ) : ℕ := (a + 2 ^ 128 - b) % 2 ^ 128

@[irreducible] def wrappingAdd (a b : ℕ) : ℕ := (a + b) % 2 ^ 128

def saturatingAdd (a b : ℕ) : ℕ := min (a + b) (2 ^ 128 - 1)

/-- The cast of a `u128` to `i128`: the upper half of the range becomes negative. -/
def asI128 (x : ℕ) : ℤ := if x < 2 ^ 127 then x else x - 2 ^ 128

theorem asI128_of_lt {x : ℕ} (h : x < 2 ^ 127) : asI128 x = x := if_pos h

/-- A `u128` with a non-negative cast is in the lower half of the range. -/
theorem lt_of_asI128_nonneg {x : ℕ} (range : x < 2 ^ 128) (h : 0 ≤ asI128 x) : x < 2 ^ 127 := by
  by_contra large
  rw [asI128] at h
  omega

/-! ## Small signed integers -/

def IsI32 (x : ℤ) : Prop := -2 ^ 31 ≤ x ∧ x < 2 ^ 31

instance (x : ℤ) : Decidable (IsI32 x) := inferInstanceAs (Decidable (_ ∧ _))

def i32 (x : ℤ) : Outcome ε ℤ := if IsI32 x then .ok x else .error .trap

theorem i32_ok_iff {x y : ℤ} : (i32 x : Outcome ε ℤ) = .ok y ↔ IsI32 x ∧ x = y :=
  ite_ok_iff

def divI32 (a b : ℤ) : Outcome ε ℤ := if b = 0 then .error .trap else i32 (a.tdiv b)

theorem divI32_ok_iff {a b y : ℤ} :
    (divI32 a b : Outcome ε ℤ) = .ok y ↔ b ≠ 0 ∧ IsI32 (a.tdiv b) ∧ a.tdiv b = y := by
  unfold divI32
  split_ifs with h <;> simp [h, i32_ok_iff]

/-- The `i32` remainder; it traps where the quotient does. -/
def remI32 (a b : ℤ) : Outcome ε ℤ :=
  if b = 0 then .error .trap else if IsI32 (a.tdiv b) then .ok (a.tmod b) else .error .trap

theorem remI32_ok_iff {a b y : ℤ} :
    (remI32 a b : Outcome ε ℤ) = .ok y ↔ b ≠ 0 ∧ IsI32 (a.tdiv b) ∧ a.tmod b = y := by
  unfold remI32
  split_ifs with h₁ h₂ <;> simp [*]

/-- When the steps of a call succeed, as one set of rewrite rules. -/
theorem ok_iff :
    type_of% @bind_ok_iff ∧ type_of% @pure_ok_iff ∧ type_of% @reject_ok_iff ∧
    type_of% @okOr_ok_iff ∧ type_of% @unwrap_ok_iff ∧ type_of% @ensure_ok_iff ∧
    type_of% @i128_ok_iff ∧ type_of% @checkedI128_ok_iff ∧ type_of% @divI128_ok_iff ∧
    type_of% @u32_ok_iff ∧ type_of% @u64_ok_iff ∧ type_of% @u128_ok_iff ∧
    type_of% @checkedU32_ok_iff ∧ type_of% @subU128_ok_iff ∧ type_of% @checkedAddU128_ok_iff ∧
    type_of% @i32_ok_iff :=
  ⟨@bind_ok_iff, @pure_ok_iff, @reject_ok_iff, @okOr_ok_iff, @unwrap_ok_iff, @ensure_ok_iff,
    @i128_ok_iff, @checkedI128_ok_iff, @divI128_ok_iff, @u32_ok_iff, @u64_ok_iff, @u128_ok_iff,
    @checkedU32_ok_iff, @subU128_ok_iff, @checkedAddU128_ok_iff, @i32_ok_iff⟩

end Soroban
