import Perigee.AccessControl.Decision

/-!
# Lockdown and renouncing

Under lockdown only `set_lockdown`, `transfer_admin` and the calls by which an address gives up its
own permissions return.  Without the first two no decision turns in anybody's favour, and giving up
changes the decisions for the caller alone (`lockdown_freezes`).
-/

namespace AccessControl

open Soroban

variable {Address : Type} [DecidableEq Address] {w w' : World Address} {host : Host Address}
  {b caller : Address} {action : Action Address}

/-! ## Decisions on the list -/

/-- What `has_permission` answers, by the list. -/
def Acl.Permits (acl : Acl Address) (a : Address) (sel : Str) : Prop :=
  acl.admin = some a ∨ (∃ kind, classify sel = .ok kind) ∧
    (lookups (fun p => acl.granted (a, p)) acl.wildcards sel = true ∨
      ∃ role, acl.member (role, a) = true ∧
        lookups (fun p => acl.permission (role, p)) acl.wildcards sel = true)

theorem Indexed.permits_iff (indexed : Indexed w) (a : Address) (sel : Str) :
    permits w a sel = true ↔ w.acl.Permits a sel := by
  have roles (role : Str) : role ∈ w.roles.readList a ↔ w.acl.member (role, a) = true :=
    (indexed.roles a).2 role
  unfold permits Acl.Permits
  split_ifs with root
  · exact iff_of_true rfl (.inl (of_decide_eq_true root))
  · have other : ¬ w.acl.admin = some a := fun admin => root (decide_eq_true admin)
    rw [or_iff_right other]
    cases classified : classify sel with
    | error => simp
    | ok =>
      simp [roles, directMatches_eq, roleMatches_eq, World.acl]

theorem lookups_mono {stored stored' : Str → Bool} {stems : List Str} {sel : Str}
    (sub : ∀ p, stored' p = true → stored p = true) (found : lookups stored' stems sel = true) :
    lookups stored stems sel = true := by
  unfold lookups at found ⊢
  simp only [Bool.or_eq_true, List.any_eq_true, Bool.and_eq_true] at found ⊢
  exact found.imp (Or.imp (sub _) (sub _)) fun ⟨stem, mem, starts, there⟩ =>
    ⟨stem, mem, starts, sub _ there⟩

/-! ## Giving up -/

/-- The edit takes something from the address. -/
def Edit.Strips (a : Address) : Edit Address → Prop
  | .revoke target _ => target = a
  | .leave _ member => member = a
  | _ => False

theorem Edit.Strips.permits {e : Edit Address} (strips : e.Strips b) (acl : Acl Address)
    (a : Address) (sel : Str) :
    ((e.act acl).Permits a sel → acl.Permits a sel) ∧
      (a ≠ b → acl.Permits a sel → (e.act acl).Permits a sel) := by
  cases e with
  | revoke target =>
    obtain rfl : target = b := strips
    constructor
    · refine Or.imp_right (And.imp_right (Or.imp_left (lookups_mono fun q there => ?_)))
      exact (of_update there).elim id fun ⟨_, absurd⟩ => nomatch absurd
    · intro other
      refine Or.imp_right (And.imp_right (Or.imp_left (lookups_mono fun q there => ?_)))
      exact (Function.update_of_ne (fun same => other (congrArg Prod.fst same)) ..).trans there
  | leave _ member =>
    obtain rfl : member = b := strips
    constructor
    · refine Or.imp_right (And.imp_right (Or.imp_right fun ⟨r, there, found⟩ => ⟨r, ?_, found⟩))
      exact (of_update there).elim id fun ⟨_, absurd⟩ => nomatch absurd
    · intro other
      refine Or.imp_right (And.imp_right (Or.imp_right fun ⟨r, there, found⟩ => ⟨r, ?_, found⟩))
      exact (Function.update_of_ne (fun same => other (congrArg Prod.snd same)) ..).trans there
  | _ => exact strips.elim

theorem foldl_strips {es : List (Edit Address)} (strips : ∀ e ∈ es, e.Strips b) (acl : Acl Address)
    (a : Address) (sel : Str) :
    ((es.foldl Edit.act acl).Permits a sel → acl.Permits a sel) ∧
      (a ≠ b → acl.Permits a sel → (es.foldl Edit.act acl).Permits a sel) := by
  induction es generalizing acl with
  | nil => exact ⟨id, fun _ => id⟩
  | cons e _ ih =>
    obtain ⟨less, same⟩ := (strips e List.mem_cons_self).permits acl a sel
    obtain ⟨rests, keeps⟩ := ih (fun e mem => strips e (List.mem_cons_of_mem _ mem)) (e.act acl)
    exact ⟨less ∘ rests, fun other => keeps other ∘ same other⟩

/-- The address that gives something up in the call. -/
def Call.renounces : Call Address → Option Address
  | .renounce caller _ | .renounceAll caller | .renounceRole caller _ => some caller
  | _ => none

theorem Call.strips_of_renounces {call : Call Address} (gives : call.renounces = some caller) :
    ∀ e ∈ call.edits w, e.Strips caller := by
  cases call with
  | renounce | renounceRole =>
    obtain rfl := Option.some.inj gives
    exact List.forall_mem_singleton.2 rfl
  | renounceAll =>
    obtain rfl := Option.some.inj gives
    exact List.forall_mem_append.2 ⟨List.forall_mem_map.2 fun _ _ => rfl,
      List.forall_mem_map.2 fun _ _ => rfl⟩
  | _ => cases gives

/-! ## Lockdown -/

/-- The calls that end a lockdown or hand it to another admin. -/
def Call.unfreezes : Call Address → Bool
  | .setLockdown _ active => !active
  | .transferAdmin .. => true
  | _ => false

/-- Under lockdown a call that does not unfreeze is one by which the caller gives something up, or
it locks again. -/
theorem locked_step (founded : Founded w) (locked : isLocked w = true)
    (frozen : action.call.unfreezes = false) (step : Step w action w') :
    action.call.renounces ≠ none ∨ action.call.edits w = [.lock true] := by
  obtain ⟨_, call⟩ := action
  obtain ⟨⟨_, _⟩, h, rfl⟩ := map_ok_iff.1 step
  have refused : requireWritable w = .error (.err .locked) := if_pos locked
  cases call with
  | renounce | renounceAll | renounceRole => exact .inl nofun
  | setLockdown _ active =>
    obtain rfl : active = true := by simpa [Call.unfreezes] using frozen
    exact .inr rfl
  | transferAdmin => cases frozen
  | initializeAcl =>
    have h := (replyUnit_ok_iff.1 h).1
    unfold initializeAcl at h
    simp only [ok_iff] at h
    obtain ⟨_, fresh, _⟩ := h
    rw [founded.unlocked (by simpa using fresh)] at locked
    cases locked
  | _ =>
    simp [exec, replyUnit, replyFlag, replyCount, bind_ok_iff, refused, setupProtocolRoles,
      setConfig, grant, revoke, batchGrant, batchRevoke, createRole, setRoleAdmin,
      grantRolePermission, revokeRolePermission, grantRole, revokeRole, destroyRole,
      batchSetMembers, batchSetPermissions, registerWildcard, unregisterWildcard, manageRole] at h

theorem frozen_step (founded : Founded w) (locked : isLocked w = true)
    (frozen : action.call.unfreezes = false) (step : Step w action w') :
    isLocked w' = true ∧ ∀ a sel, w'.acl.Permits a sel → w.acl.Permits a sel := by
  have run := (step_edits founded step).1
  have acl := run_acl run
  rcases locked_step founded locked frozen step with gives | lock
  · obtain ⟨_, gives⟩ := Option.ne_none_iff_exists'.1 gives
    have strips := Call.strips_of_renounces (w := w) gives
    refine ⟨?_, fun a sel => acl ▸ (foldl_strips strips w.acl a sel).1⟩
    refine run.invariant_of_mem (P := fun u => isLocked u = true) locked ?_
    intro u e u' mem still did
    change u'.acl.locked = true
    rw [did.acl]
    cases e with
    | revoke | leave => exact still
    | _ => exact (strips _ mem).elim
  · rw [lock] at acl
    refine ⟨congrArg Acl.locked acl, fun a sel permitted => ?_⟩
    rw [acl] at permitted
    exact permitted

/-- Nothing is left to an address that has renounced all. -/
theorem renounceAll_strips (founded : Founded w) (step : Step w ⟨host, .renounceAll caller⟩ w')
    (other : isRoot w caller = false) (sel : Str) : ¬ w'.acl.Permits caller sel := by
  have acl := run_acl (step_edits founded step).1
  rw [Call.edits, List.foldl_append, foldl_revoke, memberTable.foldl_act (.leave · caller)
    (·, caller) false (fun _ _ => rfl)] at acl
  have revoked (p : Str) : w'.acl.granted (caller, p) = false := by
    rw [acl]
    simpa [memberTable, grantTable, World.acl] using mt ((founded.grants caller).2 p).2
  have left (role : Str) : w'.acl.member (role, caller) = false := by
    rw [acl]
    simpa [memberTable, grantTable, World.acl] using mt ((founded.roles caller).2 role).2
  rintro (root | ⟨formed, direct | ⟨role, member, -⟩⟩)
  · rw [acl] at root
    exact Bool.false_ne_true (other.symm.trans (decide_eq_true root))
  · obtain ⟨p, granted, -⟩ := covers_of_lookups ((classify_ok_iff sel).1 formed).2.1 direct
    exact Bool.false_ne_true ((revoked p).symm.trans granted)
  · exact Bool.false_ne_true ((left role).symm.trans member)

/-- **Lockdown freezes authority**: from a locked state of a run, calls other than
`set_lockdown(false)` and `transfer_admin` turn no decision in anybody's favour.  In every state
giving up changes the decisions for the caller alone, and `renounce_all` leaves a caller who is not
the root admin nothing. -/
theorem lockdown_freezes {actions : List (Action Address)} (run : Run Step {} actions w) :
    (isLocked w = true → ∀ later w',
      Run (Guarded (fun _ action => action.call.unfreezes = false) Step) w later w' →
      ∀ a sel, permits w a sel = false → permits w' a sel = false) ∧
    (∀ action caller w', action.call.renounces = some caller → Step w action w' →
      ∀ a sel, a ≠ caller → permits w' a sel = permits w a sel) ∧
    ∀ host caller w', Step w ⟨host, .renounceAll caller⟩ w' → isRoot w caller = false →
      ∀ sel, permits w' caller sel = false := by
  have founded := founded_run run
  refine ⟨fun locked later w' frozen a sel refused => ?_,
    fun action caller w' gives step a sel other => ?_, fun host caller w' step other sel => ?_⟩
  · obtain ⟨founded', -, less⟩ := frozen.invariant (P := fun u => Founded u ∧ isLocked u = true ∧
      ∀ a sel, u.acl.Permits a sel → w.acl.Permits a sel) ⟨founded, locked, fun _ _ => id⟩
      fun u action u' ⟨founded, locked, less⟩ ⟨frozen, step⟩ =>
        have ⟨still, fewer⟩ := frozen_step founded locked frozen step
        ⟨founded.step step, still, fun a sel => less a sel ∘ fewer a sel⟩
    rw [← Bool.not_eq_true, founded.permits_iff] at refused
    rw [← Bool.not_eq_true, founded'.permits_iff]
    exact mt (less a sel) refused
  · obtain ⟨less, same⟩ := foldl_strips (Call.strips_of_renounces (w := w) gives) w.acl a sel
    rw [Bool.eq_iff_iff, (founded.step step).permits_iff, founded.permits_iff,
      run_acl (step_edits founded step).1]
    exact ⟨less, same other⟩
  · rw [← Bool.not_eq_true, (founded.step step).permits_iff]
    exact renounceAll_strips founded step other sel

/-- Under lockdown a member of a role gives up all it has. -/
def lockedDown : List (Action ℕ) := grantedAndAttached ++ [signed (.setLockdown 0 true)]

theorem lockedDown_frozen :
    ∃ w : World ℕ, Run Step {} lockedDown w ∧ isLocked w = true ∧
      permits w 3 (ascii "abc") = true ∧ ∃ w',
      Run (Guarded (fun _ action => action.call.unfreezes = false) Step) w
        [signed (.renounceAll 3)] w' ∧
      permits w' 5 (ascii "abc") = false ∧ permits w' 4 (ascii "abc") = permits w 4 (ascii "abc") ∧
      permits w' 3 (ascii "abc") = false := by
  obtain ⟨w, run, locked, other, member, refused, w', last⟩ : ∃ w : World ℕ,
      Run Step {} lockedDown w ∧ isLocked w = true ∧ isRoot w 3 = false ∧
      permits w 3 (ascii "abc") = true ∧ permits w 5 (ascii "abc") = false ∧
      ∃ w', perform w (signed (.renounceAll 3)) = .ok w' :=
    exists_run (fun _ _ _ => id) (by decide +kernel)
  obtain ⟨freezes, alone, nothing⟩ := lockdown_freezes run
  have later : Run (Guarded (fun _ action => action.call.unfreezes = false) Step) w
      [signed (.renounceAll 3)] w' := .cons ⟨rfl, last⟩ .nil
  exact ⟨w, run, locked, member, w', later, freezes locked _ _ later _ _ refused,
    alone _ 3 _ rfl last _ _ (by decide), nothing _ _ _ last other _⟩

end AccessControl
