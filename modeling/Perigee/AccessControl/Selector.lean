import Perigee.Soroban.Outcome

/-!
# Selectors

Names of guarded functions, with a star as their last byte for wildcards.  The file follows
`contracts/access_control/src/selector.rs`; a string is the list of its bytes.
-/

namespace AccessControl

open Soroban

inductive Error where
  | notInitialized
  | alreadyInitialized
  | unauthorized
  | locked
  | limitExceeded
  | batchTooLarge
  | emptyBatch
  | invalidSelector
  | selectorTooLong
  | invalidRole
  | roleExists
  | roleNotFound
  | unregisteredWildcard
  | wildcardInUse
  | wildcardNotFound
  | protocolRolesAlreadyConfigured
  deriving DecidableEq

abbrev Str := List UInt8

instance : LawfulBEq Str := inferInstance

def maxSelectorLen : ℕ := 64

def star : UInt8 := 42

def wildcard : Str := [star]

/-- A namespace wildcard carries its prefix, without the star. -/
inductive SelectorKind where
  | exact
  | any
  | namespaced (stem : Str)
  deriving DecidableEq

def classify (selector : Str) : Outcome Error SelectorKind :=
  if selector.length = 0 then .error (.err .invalidSelector)
  else if maxSelectorLen < selector.length then .error (.err .selectorTooLong)
  else if selector = wildcard then .ok .any
  else
    match selector.findIdx? (· = star) with
    | none => .ok .exact
    | some last =>
      if last = selector.length - 1 then .ok (.namespaced (selector.take last))
      else .error (.err .invalidSelector)

def isPrefix (stem value : Str) : Bool :=
  if stem.length = 0 ∨ value.length < stem.length ∨ maxSelectorLen < stem.length ∨
      maxSelectorLen < value.length then false
  else stem = value.take stem.length

def pattern (stem : Str) : Str := stem ++ [star]

/-! ## Well-formed selectors -/

/-- From 1 to 64 bytes, and a star only as the last one. -/
def WellFormed (s : Str) : Prop := s ≠ [] ∧ s.length ≤ maxSelectorLen ∧ star ∉ s.dropLast

instance (s : Str) : Decidable (WellFormed s) := inferInstanceAs (Decidable (_ ∧ _ ∧ _))

theorem findIdx?_of_mem {t : Str} (mem : star ∈ t) (c : UInt8) :
    ∃ i < t.length, (t ++ [c]).findIdx? (· = star) = some i := by
  rw [List.findIdx?_append]
  cases h : t.findIdx? (· = star) with
  | none =>
    rw [List.findIdx?_eq_none_iff] at h
    simpa using h star mem
  | some i =>
    obtain ⟨lt, -⟩ := List.findIdx?_eq_some_iff_getElem.1 h
    exact ⟨i, lt, rfl⟩

theorem findIdx?_of_notMem {t : Str} (mem : star ∉ t) (c : UInt8) :
    (t ++ [c]).findIdx? (· = star) = if c = star then some t.length else none := by
  have before : t.findIdx? (· = star) = none := by
    rw [List.findIdx?_eq_none_iff]
    intro x hx
    simp only [decide_eq_false_iff_not]
    rintro rfl
    exact mem hx
  rw [List.findIdx?_append, before]
  split_ifs <;> simp_all

theorem classify_concat {t : Str} {c : UInt8} (formed : WellFormed (t ++ [c])) :
    classify (t ++ [c]) = .ok (if c = star then (if t = [] then .any else .namespaced t)
      else .exact) := by
  obtain ⟨-, _, plain⟩ := formed
  rw [List.dropLast_concat] at plain
  have length : (t ++ [c]).length = t.length + 1 := by simp
  unfold classify
  rw [if_neg (by omega), if_neg (by omega)]
  by_cases last : c = star
  · subst last
    by_cases bare : t = []
    · subst bare
      rfl
    · have other : t ++ [star] ≠ wildcard := by
        intro h
        have shorter := congrArg List.length h
        have pos := List.length_pos_iff.2 bare
        rw [wildcard, List.length_singleton] at shorter
        omega
      rw [if_neg other, findIdx?_of_notMem plain, if_pos rfl, if_neg bare]
      simp
  · have other : t ++ [c] ≠ wildcard := by
      intro h
      have := List.append_inj' (h.trans (List.nil_append [star]).symm) rfl
      exact last (List.singleton_inj.1 this.2)
    rw [if_neg other, findIdx?_of_notMem plain, if_neg last, if_neg last]

theorem classify_ok_iff (s : Str) : (∃ kind, classify s = .ok kind) ↔ WellFormed s := by
  constructor
  · rintro ⟨kind, h⟩
    rcases List.eq_nil_or_concat' s with rfl | ⟨t, c, rfl⟩
    · simp [classify] at h
    · have length : (t ++ [c]).length = t.length + 1 := by simp
      by_cases long : maxSelectorLen < (t ++ [c]).length
      · rw [classify, if_neg (by omega), if_pos long] at h
        cases h
      · refine ⟨by simp, not_lt.1 long, fun mem => ?_⟩
        rw [List.dropLast_concat] at mem
        obtain ⟨i, _, first⟩ := findIdx?_of_mem mem c
        have other : t ++ [c] ≠ wildcard := by
          intro h
          have shorter := congrArg List.length h
          rw [wildcard, List.length_singleton] at shorter
          omega
        rw [classify, if_neg (by omega), if_neg long, if_neg other, first] at h
        dsimp only at h
        rw [if_neg (by omega)] at h
        cases h
  · intro formed
    rcases List.eq_nil_or_concat' s with rfl | ⟨t, c, rfl⟩
    · exact absurd rfl formed.1
    · exact ⟨_, classify_concat formed⟩

/-- The namespace wildcards are the well-formed patterns of non-empty prefixes. -/
theorem classify_namespaced_iff {s stem : Str} :
    classify s = .ok (.namespaced stem) ↔ WellFormed s ∧ stem ≠ [] ∧ s = pattern stem := by
  constructor
  · intro h
    have formed := (classify_ok_iff s).1 ⟨_, h⟩
    rcases List.eq_nil_or_concat' s with rfl | ⟨t, c, rfl⟩
    · exact absurd rfl formed.1
    · rw [classify_concat formed] at h
      split_ifs at h with last bare
      · cases h
      · cases h
        exact ⟨formed, bare, by rw [last, pattern]⟩
      · cases h
  · rintro ⟨formed, bare, rfl⟩
    unfold pattern at formed ⊢
    rw [classify_concat formed, if_pos rfl, if_neg bare]

theorem pattern_inj {a b : Str} (h : pattern a = pattern b) : a = b := List.append_cancel_right h

theorem isPrefix_iff {stem value : Str} (short : value.length ≤ maxSelectorLen) :
    isPrefix stem value = true ↔ stem ≠ [] ∧ stem <+: value := by
  unfold isPrefix
  constructor
  · intro h
    split_ifs at h with bad
    rw [not_or, not_or] at bad
    refine ⟨fun empty => bad.1 (by rw [empty]; rfl), ?_⟩
    rw [List.prefix_iff_eq_take]
    simpa using h
  · rintro ⟨bare, starts⟩
    have length := starts.length_le
    have pos := List.length_pos_iff.2 bare
    rw [if_neg (by omega)]
    rw [List.prefix_iff_eq_take] at starts
    simpa using starts

/-! ## Matching -/

/-- The stored selector `p` covers `s`: it is `s` itself, the universal wildcard, or the wildcard of
a non-empty prefix of `s`. -/
def Covers (p s : Str) : Prop :=
  p = s ∨ p = wildcard ∨ ∃ stem, stem ≠ [] ∧ stem <+: s ∧ p = pattern stem

end AccessControl
