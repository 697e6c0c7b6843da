import Perigee.AccessControl.Coherence

/-!
# The event log, and the replacement of a role's lists

The events of a run, replayed from the empty list, give the list that the storage holds
(`log_determines`).  The batches that replace the members or the permissions of a role do exactly
that, but they answer with the length of the list they were given.
-/

namespace AccessControl

open Soroban

variable {Address : Type} [DecidableEq Address] {w w' : World Address} {host : Host Address}
  {actor : Address} {role : Str}

/-! ## The log -/

def Logged (w : World Address) : Prop := w.events.foldl replay {} = w.acl

theorem EditStep.events {e : Edit Address} (step : EditStep w e w') : w'.events = w.events := by
  have track (sel : Str) (delta : ℤ) (w : World Address) :
      (trackWildcardUse sel delta w).events = w.events := by
    obtain ⟨_, eq⟩ := trackWildcardUse_eq sel delta w
    rw [eq]
  cases step with
  | grant | revoke | attach | detach => exact track ..
  | _ => rfl

theorem Logged.run {es : List (Edit Address)} (logged : Logged w)
    (run : Run (Did true) w es w') : Logged w' := by
  refine run.invariant logged ?_
  rintro _ e _ logged (_ | ⟨step, reported⟩)
  · exact logged
  · unfold Logged
    rw [List.foldl_append, step.events, logged]
    exact reported rfl

theorem detachEach_events (role : Str) (sels : List Str) (w : World Address) :
    (detachEach role sels w).events = w.events := by
  induction sels generalizing w with
  | nil => rfl
  | cons _ _ ih =>
    refine (ih _).trans ?_
    unfold applyRoleRevoke
    split_ifs with present
    · exact (EditStep.detach present).events
    · rfl

theorem leaveEach_events (role : Str) (members : List Address) (w : World Address) :
    (leaveEach role members w).events = w.events := by
  induction members generalizing w with
  | nil => rfl
  | cons _ _ ih =>
    refine (ih _).trans ?_
    unfold applyRoleMemberRevoke
    split_ifs <;> rfl

theorem foldl_destroy (acl : Acl Address) (role : Str) (sels : List Str) (members : List Address) :
    List.foldl Edit.act acl
      (sels.map (.detach role) ++ members.map (.leave role) ++ [.destroy role]) =
      Edit.act acl (.destroy role) := by
  have blank {K : Type} [DecidableEq K] (xs : List K) (table : Str × K → Bool) (key : Str × K) :
      (if key.1 = role then false
        else if xs.any (fun x => (role, x) = key) then false else table key) =
      if key.1 = role then false else table key := by
    split_ifs with own listed
    · rfl
    · obtain ⟨x, -, same⟩ := List.any_eq_true.1 listed
      exact absurd (congrArg Prod.fst (of_decide_eq_true same)).symm own
    · rfl
  rw [List.foldl_append, List.foldl_append, foldl_detach, foldl_leave, List.foldl_cons,
    List.foldl_nil]
  simp only [Edit.act, memberTable, permissionTable, blank]

theorem destroyRole_logged {count : ℕ} (indexed : Indexed w) (logged : Logged w)
    (h : destroyRole host actor role w = .ok (count, w')) : Logged w' := by
  have acl := run_acl (destroyRole_edits indexed h).1
  unfold destroyRole at h
  simp only [ok_iff] at h
  obtain ⟨_, _, _, _, _, _, _, _, -, rfl⟩ := h
  refine Eq.trans ?_ (acl.trans (foldl_destroy ..)).symm
  refine (List.foldl_append ..).trans ?_
  change Edit.act (List.foldl replay {} (World.events (leaveEach role _ _))) (.destroy role) = _
  rw [leaveEach_events, detachEach_events, logged]

theorem Logged.step {action : Action Address} (founded : Founded w) (logged : Logged w)
    (step : Step w action w') : Logged w' := by
  obtain ⟨_, call⟩ := action
  by_cases noted : call.noted = true
  · have run := (step_edits founded step).1
    rw [noted] at run
    exact logged.run run
  · cases call with
    | destroyRole =>
      obtain ⟨⟨_, _⟩, h, rfl⟩ := map_ok_iff.1 step
      obtain ⟨_, h, -⟩ := replyCount_ok_iff.1 h
      exact destroyRole_logged founded.toIndexed logged h
    | _ => exact absurd rfl noted

/-- **The log determines the list**: after every run, the published events give the direct grants,
the roles with their admins, members and permissions, the registered wildcards, the root admin, the
lockdown and the configuration. -/
theorem log_determines {actions : List (Action Address)} (run : Run Step {} actions w) :
    w.events.foldl replay {} = w.acl := by
  induction run with
  | nil => rfl
  | snoc before last ih => exact Logged.step (founded_run before) ih last

/-- A role is destroyed after it was given a wildcard, and one event tells of it. -/
theorem grantedAndAttached_replayed :
    ∃ w : World ℕ, Run Step {} grantedAndAttached w ∧ w.events.length = 11 ∧
      w.events.foldl replay {} = w.acl ∧
      (w.events.foldl replay {}).permission (ascii "s", ascii "a*") = false := by
  obtain ⟨w, run, eleven, detached⟩ : ∃ w : World ℕ, Run Step {} grantedAndAttached w ∧
      w.events.length = 11 ∧ w.rolePermission.has (ascii "s", ascii "a*") = false :=
    exists_run (fun _ _ _ => id) (by decide +kernel)
  refine ⟨w, run, eleven, log_determines run, ?_⟩
  rw [log_determines run]
  exact detached

/-! ## Replacement -/

def Acl.withMembers (acl : Acl Address) (role : Str) (members : List Address) : Acl Address :=
  { acl with member := fun key => if key.1 = role then key.2 ∈ members else acl.member key }

def Acl.withPermissions (acl : Acl Address) (role : Str) (sels : List Str) : Acl Address :=
  { acl with permission := fun key => if key.1 = role then key.2 ∈ sels else acl.permission key }

theorem replaced_iff {K : Type} [DecidableEq K] {table : Str × K → Bool} {others listed : List K}
    (left : ∀ x, x ∈ others ↔ table (role, x) = true ∧ x ∉ listed) (key : Str × K) :
    (if listed.any (fun x => (role, x) = key) then true
      else if others.any (fun x => (role, x) = key) then false else table key) = true ↔
    if key.1 = role then key.2 ∈ listed else table key = true := by
  obtain ⟨r, x⟩ := key
  by_cases own : r = role
  · subst own
    by_cases there : x ∈ listed
    · simp [there]
    · simp [there, left x]
  · simp [own, Ne.symm own]

theorem length_eq_iff_nodup {K : Type} [DecidableEq K] {current listed : List K}
    (once : current.Nodup) (same : ∀ x, x ∈ current ↔ x ∈ listed) :
    listed.length = current.length ↔ listed.Nodup := by
  have perm : current.Perm listed.dedup :=
    (List.perm_ext_iff_of_nodup once listed.nodup_dedup).2 fun x => by simp [same x]
  rw [perm.length_eq]
  constructor
  · intro long
    rw [← List.dedup_eq_self]
    exact (listed.dedup_sublist.eq_of_length long.symm)
  · intro nodup
    rw [nodup.dedup]

theorem batchSetMembers_replaces {members : List Address} {n : ℕ} (founded : Founded w)
    (h : batchSetMembers host actor role members w = .ok (n, w')) :
    w'.acl = w.acl.withMembers role members ∧
      (n = (w'.members.readList role).length ↔ members.Nodup) := by
  have edits : Edits host w (.batchSetMembers actor role members) w' :=
    exec_edits founded (map_ok_iff.2 ⟨_, h, rfl⟩)
  have run := edits.1
  have acl := run_acl run
  rw [Call.edits, List.foldl_append, foldl_leave, foldl_join] at acl
  have replaced : w'.acl = w.acl.withMembers role members := by
    rw [acl]
    refine congrArg (memberTable.set w.acl) (funext fun key => ?_)
    refine Bool.eq_iff_iff.2 ((replaced_iff (fun x => ?_) key).trans ?_)
    · rw [List.mem_filter, (founded.members role).2 x, decide_eq_true_eq]
      rfl
    · split_ifs <;> simp
  obtain ⟨once, lists⟩ := (founded.run run).members role
  unfold batchSetMembers at h
  simp only [ok_iff] at h
  obtain ⟨_, _, _, _, _, _, rfl, _⟩ := h
  refine ⟨replaced, length_eq_iff_nodup once fun x => (lists x).trans ?_⟩
  change w'.acl.member (role, x) = true ↔ _
  simp [replaced, Acl.withMembers]

theorem batchSetPermissions_replaces {sels : List Str} {n : ℕ} (founded : Founded w)
    (h : batchSetPermissions host actor role sels w = .ok (n, w')) :
    w'.acl = w.acl.withPermissions role sels ∧
      (n = (w'.permissions.readList role).length ↔ sels.Nodup) := by
  have edits : Edits host w (.batchSetPermissions actor role sels) w' :=
    exec_edits founded (map_ok_iff.2 ⟨_, h, rfl⟩)
  have run := edits.1
  have acl := run_acl run
  rw [Call.edits, List.foldl_append, foldl_detach, foldl_attach] at acl
  have replaced : w'.acl = w.acl.withPermissions role sels := by
    rw [acl]
    refine congrArg (permissionTable.set w.acl) (funext fun key => ?_)
    refine Bool.eq_iff_iff.2 ((replaced_iff (fun x => ?_) key).trans ?_)
    · rw [List.mem_filter, (founded.permissions role).2 x, decide_eq_true_eq]
      rfl
    · split_ifs <;> simp
  obtain ⟨once, lists⟩ := (founded.run run).permissions role
  unfold batchSetPermissions at h
  simp only [ok_iff] at h
  obtain ⟨_, _, _, _, _, _, rfl, _⟩ := h
  refine ⟨replaced, length_eq_iff_nodup once fun x => (lists x).trans ?_⟩
  change w'.acl.permission (role, x) = true ↔ _
  simp [replaced, Acl.withPermissions]

/-- **Replacement is exact**: in every state of a run, the batches leave the role with the members
or permissions that are listed and change nothing else.  What they return is the number of them
exactly if none is listed twice. -/
theorem replacement_exact {actions : List (Action Address)} (run : Run Step {} actions w)
    (host : Host Address) (actor : Address) (role : Str) (n : ℕ) (w' : World Address) :
    (∀ members, batchSetMembers host actor role members w = .ok (n, w') →
      w'.acl = w.acl.withMembers role members ∧
        (n = (w'.members.readList role).length ↔ members.Nodup)) ∧
    ∀ sels, batchSetPermissions host actor role sels w = .ok (n, w') →
      w'.acl = w.acl.withPermissions role sels ∧
        (n = (w'.permissions.readList role).length ↔ sels.Nodup) :=
  ⟨fun _ h => batchSetMembers_replaces (founded_run run) h,
    fun _ h => batchSetPermissions_replaces (founded_run run) h⟩

theorem roster_replaced :
    ∃ w : World ℕ, Run Step {} grantedAndAttached w ∧ ∃ w',
      batchSetMembers ⟨fun _ => true⟩ 2 (ascii "r") [4, 5] w = .ok (2, w') ∧
      w'.acl = w.acl.withMembers (ascii "r") [4, 5] ∧
      2 = (w'.members.readList (ascii "r")).length := by
  obtain ⟨w, run, ⟨_, w'⟩, last, rfl⟩ : ∃ w : World ℕ, Run Step {} grantedAndAttached w ∧
      ∃ r, batchSetMembers ⟨fun _ => true⟩ 2 (ascii "r") [4, 5] w = .ok r ∧ r.1 = 2 :=
    exists_run (fun _ _ _ => id) (by decide +kernel)
  obtain ⟨replaced, count⟩ := (replacement_exact run _ _ _ _ w').1 _ last
  exact ⟨w, run, w', last, replaced, count.2 (by decide)⟩

/-- An address that is listed twice is counted twice. -/
theorem listed_twice_counted_twice :
    ∃ w : World ℕ, Run Step {} grantedAndAttached w ∧ ∃ w',
      batchSetMembers ⟨fun _ => true⟩ 2 (ascii "r") [3, 4, 3] w = .ok (3, w') ∧
      w'.members.readList (ascii "r") = [3, 4] := by
  obtain ⟨w, h, ⟨_, w'⟩, last, rfl, two⟩ : ∃ w : World ℕ,
      grantedAndAttached.foldlM perform {} = .ok w ∧
      ∃ r, batchSetMembers ⟨fun _ => true⟩ 2 (ascii "r") [3, 4, 3] w = .ok r ∧ r.1 = 3 ∧
        r.2.members.readList (ascii "r") = [3, 4] := by
    decide +kernel
  exact ⟨w, Run.of_foldlM (fun _ _ _ => id) h, w', last, two⟩

end AccessControl
