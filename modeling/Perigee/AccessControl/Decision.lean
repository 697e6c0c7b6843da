import Perigee.AccessControl.Coherence

/-!
# The decision

`has_permission` looks for the selector itself, for the universal wildcard and for the patterns of
the registered prefixes.  Where every pattern in use is registered, this finds any stored selector
that covers the one asked for, so that the answer is `Allowed`, which does not speak of prefixes and
counts (`decision_exact`).
-/

namespace AccessControl

open Soroban

variable {Address : Type} [DecidableEq Address] {w w' : World Address} {caller : Address}

/-- The selector is granted to the address, or attached to a role that lists it as a member. -/
def Holds (w : World Address) (caller : Address) (p : Str) : Prop :=
  w.grant.has (caller, p) = true ∨
    ∃ role, caller ∈ w.members.readList role ∧ w.rolePermission.has (role, p) = true

/-- Who may do what, by the stored selectors alone. -/
def Allowed (w : World Address) (caller : Address) (sel : Str) : Prop :=
  isRoot w caller = true ∨ WellFormed sel ∧ ∃ p, Holds w caller p ∧ Covers p sel

/-- The three lookups that decide whether a table has a selector that covers the one asked for. -/
def lookups (stored : Str → Bool) (stems : List Str) (sel : Str) : Bool :=
  stored sel || stored wildcard ||
    stems.any fun stem => isPrefix stem sel && stored (pattern stem)

variable {stored : Str → Bool} {stems : List Str} {sel : Str}

theorem covers_of_lookups (short : sel.length ≤ maxSelectorLen)
    (found : lookups stored stems sel = true) : ∃ p, stored p = true ∧ Covers p sel := by
  unfold lookups at found
  rw [Bool.or_eq_true, Bool.or_eq_true, List.any_eq_true] at found
  rcases found with (same | any) | ⟨stem, _, found⟩
  · exact ⟨sel, same, .inl rfl⟩
  · exact ⟨wildcard, any, .inr (.inl rfl)⟩
  · obtain ⟨starts, found⟩ := Bool.and_eq_true_iff.1 found
    obtain ⟨bare, starts⟩ := (isPrefix_iff short).1 starts
    exact ⟨pattern stem, found, .inr (.inr ⟨stem, bare, starts, rfl⟩)⟩

theorem lookups_of_covers (short : sel.length ≤ maxSelectorLen) {p : Str}
    (registered : ∀ stem, stem ≠ [] → stored (pattern stem) = true → stem ∈ stems)
    (found : stored p = true) (covers : Covers p sel) : lookups stored stems sel = true := by
  unfold lookups
  rw [Bool.or_eq_true, Bool.or_eq_true, List.any_eq_true]
  rcases covers with rfl | rfl | ⟨stem, bare, starts, rfl⟩
  · exact .inl (.inl found)
  · exact .inl (.inr found)
  · refine .inr ⟨stem, registered stem bare found, Bool.and_eq_true_iff.2 ⟨?_, found⟩⟩
    exact (isPrefix_iff short).2 ⟨bare, starts⟩

theorem directMatches_eq (w : World Address) (caller : Address) (sel : Str) :
    directMatches w caller sel =
      lookups (fun p => w.grant.has (caller, p)) (wildcardPrefixes w) sel := rfl

omit [DecidableEq Address] in
theorem roleMatches_eq (w : World Address) (role sel : Str) :
    roleMatches w role sel =
      lookups (fun p => w.rolePermission.has (role, p)) (wildcardPrefixes w) sel := rfl

theorem Indexed.mem_roles_iff (indexed : Indexed w) {role : Str} :
    role ∈ w.roles.readList caller ↔ caller ∈ w.members.readList role :=
  ((indexed.roles caller).2 role).trans ((indexed.members role).2 caller).symm

/-- Whoever is permitted a selector is allowed it, in any state with coherent tables. -/
theorem Indexed.allowed_of_permits (indexed : Indexed w) (permitted : permits w caller sel = true) :
    Allowed w caller sel := by
  unfold permits at permitted
  split_ifs at permitted with root
  · exact .inl root
  · split at permitted
    · cases permitted
    · rename_i kind classified
      have formed := (classify_ok_iff sel).1 ⟨kind, classified⟩
      refine .inr ⟨formed, ?_⟩
      rw [Bool.or_eq_true, List.any_eq_true] at permitted
      rcases permitted with direct | ⟨role, listed, found⟩
      · rw [directMatches_eq] at direct
        obtain ⟨p, granted, covers⟩ := covers_of_lookups formed.2.1 direct
        exact ⟨p, .inl granted, covers⟩
      · rw [roleMatches_eq] at found
        obtain ⟨p, attached, covers⟩ := covers_of_lookups formed.2.1 found
        exact ⟨p, .inr ⟨role, indexed.mem_roles_iff.1 listed, attached⟩, covers⟩

theorem Coherent.permits_of_allowed (coherent : Coherent w) (allowed : Allowed w caller sel) :
    permits w caller sel = true := by
  unfold permits
  split_ifs with root
  · rfl
  · obtain ⟨formed, p, holds, covers⟩ := allowed.resolve_left root
    obtain ⟨_, classified⟩ := (classify_ok_iff sel).2 formed
    rw [classified]
    dsimp only
    rw [Bool.or_eq_true, List.any_eq_true]
    rcases holds with granted | ⟨role, member, attached⟩
    · left
      rw [directMatches_eq]
      refine lookups_of_covers formed.2.1 (fun stem bare stored => ?_) granted covers
      exact coherent.registered stem bare (Nat.add_pos_left (refs_pos stored) _)
    · refine .inr ⟨role, coherent.mem_roles_iff.2 member, ?_⟩
      rw [roleMatches_eq]
      refine lookups_of_covers formed.2.1 (fun stem bare stored => ?_) attached covers
      exact coherent.registered stem bare (Nat.add_pos_right _ (refs_pos stored))

theorem Coherent.permits_iff (coherent : Coherent w) (caller : Address) (sel : Str) :
    permits w caller sel = true ↔ Allowed w caller sel :=
  ⟨coherent.toIndexed.allowed_of_permits, coherent.permits_of_allowed⟩

/-! ## Unregistering -/

omit [DecidableEq Address] in
theorem keys_dedup_le {K : Type} [DecidableEq K] (stored : Store (K × Str) Bool) (sel : Str) :
    ((stored.keys ++ []).filter fun key : K × Str => key.2 = sel).dedup.length ≤
      refs stored sel := by
  rw [List.append_nil]
  exact (List.dedup_sublist _).length_le

theorem Bounded.room_unregister (bounded : Bounded w) (host : Host Address) (actor : Address)
    (pattern : Str) : Room w ⟨host, .unregisterWildcard actor pattern⟩ := fun stem bare =>
  (Nat.add_le_add (keys_dedup_le ..) (keys_dedup_le ..)).trans_lt (bounded stem bare)

/-- **The decision is exact**: in every state of a run whose calls found room for the references
they asked for, an address is permitted a selector exactly if it is allowed it, and unregistering a
wildcard changes no decision. -/
theorem decision_exact {actions : List (Action Address)}
    (run : Run (Guarded Room Step) {} actions w) :
    (∀ caller sel, permits w caller sel = true ↔ Allowed w caller sel) ∧
      ∀ host actor pattern w', Step w ⟨host, .unregisterWildcard actor pattern⟩ w' →
        ∀ caller sel, permits w' caller sel = permits w caller sel := by
  have coherent := coherent_run run
  refine ⟨coherent.permits_iff, fun host actor pattern w' step caller sel => ?_⟩
  have coherent' := coherent.step (founded_of_room run)
    ((bounded_run run).room_unregister host actor pattern) step
  rw [Bool.eq_iff_iff, coherent.permits_iff, coherent'.permits_iff]
  obtain ⟨⟨_, _⟩, h, rfl⟩ := map_ok_iff.1 step
  obtain ⟨_, h, -⟩ := replyFlag_ok_iff.1 h
  unfold unregisterWildcard at h
  simp only [ok_iff, Prod.mk.injEq] at h
  obtain ⟨_, _, _, _, _, _, _, _, _, _, -, rfl⟩ := h
  rfl

/-- A member of a role that holds a wildcard is allowed what it covers, and nobody else is. -/
theorem grantedAndAttached_decided :
    ∃ w : World ℕ, Run (Guarded Room Step) {} grantedAndAttached w ∧
      Allowed w 3 (ascii "abc") ∧ ¬ Allowed w 5 (ascii "abc") := by
  obtain ⟨w, h, member, other⟩ : ∃ w, grantedAndAttached.foldlM (execIf Few perform) {} = .ok w ∧
      permits w 3 (ascii "abc") = true ∧ permits w 5 (ascii "abc") = false := by
    decide +kernel
  obtain ⟨decided, -⟩ := decision_exact (Run.of_few h)
  refine ⟨w, Run.of_few h, (decided _ _).1 member, fun allowed => ?_⟩
  rw [(decided _ _).2 allowed] at other
  cases other

/-- After `2 ^ 32` grants of a pattern it can be unregistered, and those who hold it are no longer
permitted what it covers. -/
theorem unregistered_in_use :
    ∃ w w' : World ℕ, Run Step {} (crowd (2 ^ 32)) w ∧
      Step w (signed (.unregisterWildcard 0 (pattern (ascii "a")))) w' ∧
      permits w 1 (ascii "ab") = true ∧ permits w' 1 (ascii "ab") = false ∧
      Allowed w' 1 (ascii "ab") := by
  obtain ⟨w, run, crowded⟩ := crowd_run (2 ^ 32)
  have granted : w.grant.has (1, pattern (ascii "a")) = true :=
    (crowded.granted 1 _).2 ⟨rfl, le_rfl, Nat.one_le_two_pow⟩
  have only (s : Str) (other : s ≠ pattern (ascii "a")) : w.grant.has (1, s) = false := by
    rw [← Bool.not_eq_true, crowded.granted]
    exact fun h => other h.1
  have notRoot : isRoot w 1 = false := by simp [isRoot, crowded.admin]
  have plain : classify (ascii "ab") = .ok .exact := by decide +kernel
  have bare : ascii "a" ≠ [] := by decide
  have unused : wildcardUse w (ascii "a") = 0 := crowded.count.trans (Nat.mod_self _)
  have unregistered : unregisterWildcard ⟨fun _ => true⟩ 0 (pattern (ascii "a")) w =
      .ok (true, emit (.wildcard 0 (pattern (ascii "a")) false)
        { w with wildcards := w.wildcards.writeList () [] }) := by
    unfold unregisterWildcard requireRoot requireWritable requireAuth
    simp only [ok_iff, not_not]
    refine ⟨(), ⟨(), by simp [isRoot, crowded.admin], trivial⟩, (),
      by simp [isLocked, crowded.lockdown], ascii "a", ?_, (), ?_, (), ?_, ?_⟩
    · exact namespacePrefix_ok_iff.2 (classify_namespaced_iff.2 ⟨by decide, bare, rfl⟩)
    · rw [crowded.wildcards]
      exact List.mem_singleton_self _
    · rw [unused]
      exact Nat.lt_irrefl 0
    · rw [crowded.wildcards]
      rfl
  refine ⟨w, _, run, map_ok_iff.2 ⟨_, map_ok_iff.2 ⟨_, unregistered, rfl⟩, rfl⟩, ?_, ?_, ?_⟩
  · have starts : isPrefix (ascii "a") (ascii "ab") = true := by decide
    have found : directMatches w 1 (ascii "ab") = true := by
      rw [directMatches, crowded.wildcards, List.any_cons, granted, starts]
      exact Bool.or_true _
    rw [permits, notRoot, plain]
    rw [found]
    rfl
  · set w' := emit (.wildcard 0 (pattern (ascii "a")) false)
      { w with wildcards := w.wildcards.writeList () [] }
    have lost : directMatches w' 1 (ascii "ab") = false := by
      have none : wildcardPrefixes w' = [] := Store.readList_writeList ..
      rw [directMatches, none, List.any_nil, Bool.or_false]
      exact Bool.or_eq_false_iff.2 ⟨only _ (by decide), only _ (by decide)⟩
    have noRole : w'.roles.readList 1 = [] := crowded.roles 1
    rw [permits, if_neg (by rw [Bool.not_eq_true]; exact notRoot), plain]
    dsimp only
    rw [lost, noRole]
    rfl
  · have covers : Covers (pattern (ascii "a")) (ascii "ab") :=
      .inr (.inr ⟨ascii "a", bare, by decide, rfl⟩)
    exact .inr ⟨by decide, pattern (ascii "a"), .inl granted, covers⟩

end AccessControl
