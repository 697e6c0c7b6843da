import Perigee.AccessControl.Edits

/-!
# The edits of the loops

Every loop of the code is a run of edits of one kind, each with the event that reports it.
-/

namespace AccessControl

open Soroban Function

variable {Address : Type} [DecidableEq Address] {host : Host Address} {w w' : World Address}
  {who : Address} {u : Unit} {role : Str}

/-! ## Checks -/

/-- The root admin has authorized the call. -/
def ByRoot (host : Host Address) (w : World Address) (who : Address) : Prop :=
  isRoot w who = true ∧ host.auth who = true

/-- The root admin or the admin of the role has authorized the call. -/
def ByAdmin (host : Host Address) (w : World Address) (who : Address) (role : Str) : Prop :=
  host.auth who = true ∧ (isRoot w who = true ∨ w.roleAdmin.lookup role = some who)

theorem ByRoot.admin (root : ByRoot host w who) : w.admin = some who :=
  of_decide_eq_true root.1

theorem requireRoot_ok (h : requireRoot host w who = .ok u) : ByRoot host w who := by
  unfold requireRoot requireAuth at h
  simp only [ok_iff, not_not] at h
  obtain ⟨_, root, auth⟩ := h
  exact ⟨root, auth⟩

theorem requireRoleAdmin_ok (h : requireRoleAdmin host w who role = .ok u) :
    ByAdmin host w who role := by
  unfold requireRoleAdmin requireAuth at h
  split_ifs at h with root
  · exact ⟨ensure_ok_iff.1 h, .inl root⟩
  · split at h
    · rename_i admin stored
      split_ifs at h with same
      · exact ⟨ensure_ok_iff.1 h, .inr (stored.trans (congrArg some same))⟩
    · cases h

theorem manageRole_ok {actor : Address} (h : manageRole host actor role w = .ok u) :
    roleExists w role = true ∧ ByAdmin host w actor role := by
  unfold manageRole at h
  simp only [ok_iff, not_not] at h
  obtain ⟨_, existing, _, admin, _⟩ := h
  exact ⟨existing, requireRoleAdmin_ok admin⟩

theorem ByRoot.byAdmin (root : ByRoot host w who) (role : Str) :
    ByAdmin host w who role := ⟨root.2, .inl root.1⟩

omit [DecidableEq Address] in
theorem checkNewRole_ok (h : checkNewRole role w = .ok u) : roleExists w role = false := by
  unfold checkNewRole at h
  simp only [ok_iff] at h
  obtain ⟨_, _, _, absent, _⟩ := h
  simpa using absent

/-! ## Primitives -/

section Primitives

variable {role sel : Str} {member target : Address} {added : Bool}

theorem applyGrant_did (h : applyGrant target sel w = .ok (added, w')) (actor : Address)
    (size : ℕ) :
    Did true w (.grant target sel) (emitIf added (.grant actor target sel true size) w') := by
  unfold applyGrant at h
  split_ifs at h with present
  · obtain ⟨rfl, rfl⟩ := Prod.mk.inj (pure_ok_iff.1 h)
    exact .idle_table grantTable rfl present
  · simp only [ok_iff] at h
    obtain ⟨_, valid, _, _, _, _, rfl, rfl⟩ := h
    exact .of_event rfl (.grant (by simpa using present) valid)

theorem applyRevoke_did (actor target : Address) (sel : Str) (size : ℕ) (w : World Address) :
    Did true w (.revoke target sel) (emitIf (applyRevoke target sel w).1
      (.grant actor target sel false size) (applyRevoke target sel w).2) := by
  unfold applyRevoke
  split_ifs with present
  · exact .of_event rfl (.revoke present)
  · exact .idle_table grantTable rfl (Bool.eq_false_of_not_eq_true present)

theorem applyRolePermission_did (existing : roleExists w role = true)
    (h : applyRolePermission role sel w = .ok (added, w')) (actor : Address) (size : ℕ) :
    Did true w (.attach role sel)
      (emitIf added (.rolePermission actor role sel true size) w') := by
  unfold applyRolePermission at h
  split_ifs at h with present
  · obtain ⟨rfl, rfl⟩ := Prod.mk.inj (pure_ok_iff.1 h)
    exact .idle_table permissionTable rfl present
  · simp only [ok_iff] at h
    obtain ⟨_, valid, _, _, _, _, rfl, rfl⟩ := h
    exact .of_event rfl (.attach existing (by simpa using present) valid)

theorem applyRoleRevoke_did (role sel : Str) (w : World Address) :
    Did false w (.detach role sel) (applyRoleRevoke role sel w).2 ∧ ∀ actor size,
      Did true w (.detach role sel) (emitIf (applyRoleRevoke role sel w).1
        (.rolePermission actor role sel false size) (applyRoleRevoke role sel w).2) := by
  unfold applyRoleRevoke
  split_ifs with present
  · exact ⟨.unreported (.detach present) (absurd · Bool.false_ne_true),
      fun _ _ => .of_event rfl (.detach present)⟩
  · have absent := Bool.eq_false_of_not_eq_true present
    exact ⟨.idle_table permissionTable rfl absent,
      fun _ _ => .idle_table permissionTable rfl absent⟩

theorem applyRoleMember_did (existing : roleExists w role = true)
    (h : applyRoleMember role member w = .ok (added, w')) (actor : Address) (size : ℕ) :
    Did true w (.join role member) (emitIf added (.roleMember actor role member true size) w') := by
  unfold applyRoleMember at h
  split_ifs at h with present
  · obtain ⟨rfl, rfl⟩ := Prod.mk.inj (pure_ok_iff.1 h)
    exact .idle_table memberTable rfl present
  · simp only [ok_iff] at h
    obtain ⟨_, _, _, _, _, _, rfl, rfl⟩ := h
    exact .of_event rfl (.join existing (by simpa using present))

theorem applyRoleMemberRevoke_did (role : Str) (member : Address) (w : World Address) :
    Did false w (.leave role member) (applyRoleMemberRevoke role member w).2 ∧ ∀ actor size,
      Did true w (.leave role member) (emitIf (applyRoleMemberRevoke role member w).1
        (.roleMember actor role member false size) (applyRoleMemberRevoke role member w).2) := by
  unfold applyRoleMemberRevoke
  split_ifs with present
  · exact ⟨.unreported (.leave present) (absurd · Bool.false_ne_true),
      fun _ _ => .of_event rfl (.leave present)⟩
  · have absent := Bool.eq_false_of_not_eq_true present
    exact ⟨.idle_table memberTable rfl absent, fun _ _ => .idle_table memberTable rfl absent⟩

end Primitives

/-! ## Loops -/

section Loops

variable {actor : Address} {role : Str} {size applied count : ℕ} {sels : List Str}
  {members : List Address} {entries : List (GrantEntry Address)}

theorem attachEach_run (existing : roleExists w role = true)
    (h : attachEach actor role size sels w = .ok w') :
    Run (Did true) w (sels.map (.attach role)) w' := by
  induction sels generalizing w with
  | nil =>
    obtain rfl := pure_ok_iff.1 h
    exact .nil
  | cons _ _ ih =>
    obtain ⟨⟨_, _⟩, applied, h⟩ := bind_ok_iff.1 h
    have first := applyRolePermission_did existing applied actor size
    exact .cons first (ih (run_roleExists (.cons first .nil) (by simp [Edit.act]) existing) h)

theorem joinEach_run (existing : roleExists w role = true)
    (h : joinEach actor role size members w = .ok w') :
    Run (Did true) w (members.map (.join role)) w' := by
  induction members generalizing w with
  | nil =>
    obtain rfl := pure_ok_iff.1 h
    exact .nil
  | cons _ _ ih =>
    obtain ⟨⟨_, _⟩, applied, h⟩ := bind_ok_iff.1 h
    have first := applyRoleMember_did existing applied actor size
    exact .cons first (ih (run_roleExists (.cons first .nil) (by simp [Edit.act]) existing) h)

theorem detachOthers_run (actor : Address) (role : Str) (selectors : List Str) (size : ℕ)
    (current : List Str) (w : World Address) :
    Run (Did true) w ((current.filter (· ∉ selectors)).map (.detach role))
      (detachOthers actor role selectors size current w) := by
  induction current generalizing w with
  | nil => exact .nil
  | cons sel _ ih =>
    unfold detachOthers
    by_cases stays : sel ∈ selectors
    · simpa [stays] using ih w
    · simpa [stays] using Run.cons ((applyRoleRevoke_did role sel w).2 actor size) (ih _)

theorem leaveOthers_run (actor : Address) (role : Str) (members : List Address) (size : ℕ)
    (current : List Address) (w : World Address) :
    Run (Did true) w ((current.filter (· ∉ members)).map (.leave role))
      (leaveOthers actor role members size current w) := by
  induction current generalizing w with
  | nil => exact .nil
  | cons member _ ih =>
    unfold leaveOthers
    by_cases stays : member ∈ members
    · simpa [stays] using ih w
    · simpa [stays] using Run.cons ((applyRoleMemberRevoke_did role member w).2 actor size) (ih _)

theorem detachEach_run (role : Str) (sels : List Str) (w : World Address) :
    Run (Did false) w (sels.map (.detach role)) (detachEach role sels w) := by
  induction sels generalizing w with
  | nil => exact .nil
  | cons sel _ ih => exact .cons (applyRoleRevoke_did role sel w).1 (ih _)

theorem leaveEach_run (role : Str) (members : List Address) (w : World Address) :
    Run (Did false) w (members.map (.leave role)) (leaveEach role members w) := by
  induction members generalizing w with
  | nil => exact .nil
  | cons member _ ih => exact .cons (applyRoleMemberRevoke_did role member w).1 (ih _)

theorem grantEach_run (h : grantEach actor size entries applied w = .ok (count, w')) :
    Run (Did true) w (entries.map fun entry => .grant entry.target entry.selector) w' := by
  induction entries generalizing w applied with
  | nil =>
    obtain ⟨-, rfl⟩ := Prod.mk.inj (pure_ok_iff.1 h)
    exact .nil
  | cons _ _ ih =>
    simp only [grantEach, bind_ok_iff] at h
    obtain ⟨⟨_, _⟩, granted, _, _, h⟩ := h
    exact .cons (applyGrant_did granted actor size) (ih h)

theorem revokeEach_run (h : revokeEach actor size entries applied w = .ok (count, w')) :
    Run (Did true) w (entries.map fun entry => .revoke entry.target entry.selector) w' := by
  induction entries generalizing w applied with
  | nil =>
    obtain ⟨-, rfl⟩ := Prod.mk.inj (pure_ok_iff.1 h)
    exact .nil
  | cons _ _ ih =>
    simp only [revokeEach, bind_ok_iff] at h
    obtain ⟨_, _, h⟩ := h
    exact .cons (applyRevoke_did ..) (ih h)

theorem applyRevoke_roles (target : Address) (sel : Str) (w : World Address) :
    (applyRevoke target sel w).2.roles = w.roles := by
  unfold applyRevoke dropGrant
  split_ifs
  · obtain ⟨_, eq⟩ := trackWildcardUse_eq sel (-1) { w with
      grant := w.grant.remove (target, sel)
      grants := w.grants.writeList target ((w.grants.readList target).filter (· ≠ sel)) }
    exact eq ▸ rfl
  · rfl

theorem renounceGrants_run (h : renounceGrants actor sels applied w = .ok (count, w')) :
    Run (Did true) w (sels.map (.revoke actor)) w' ∧ w'.roles = w.roles := by
  induction sels generalizing w applied with
  | nil =>
    obtain ⟨-, rfl⟩ := Prod.mk.inj (pure_ok_iff.1 h)
    exact ⟨.nil, rfl⟩
  | cons _ _ ih =>
    simp only [renounceGrants, bind_ok_iff] at h
    obtain ⟨_, _, h⟩ := h
    obtain ⟨others, same⟩ := ih h
    refine ⟨.cons (applyRevoke_did ..) others, same.trans ?_⟩
    unfold emitIf
    split_ifs
    · exact applyRevoke_roles ..
    · exact applyRevoke_roles ..

theorem renounceRoles_run {roles : List Str}
    (h : renounceRoles actor roles applied w = .ok (count, w')) :
    Run (Did true) w (roles.map (.leave · actor)) w' := by
  induction roles generalizing w applied with
  | nil =>
    obtain ⟨-, rfl⟩ := Prod.mk.inj (pure_ok_iff.1 h)
    exact .nil
  | cons role _ ih =>
    simp only [renounceRoles, bind_ok_iff] at h
    obtain ⟨_, _, h⟩ := h
    exact .cons ((applyRoleMemberRevoke_did role actor w).2 ..) (ih h)

def roleEdits (actor : Address) (role : ProtocolRole × Address) : List (Edit Address) :=
  .create role.1.name actor :: (protocolRolePermissions role.1).map (.attach role.1.name) ++
    [.join role.1.name role.2]

theorem provisionProtocolRole_run {member : Address} {role : ProtocolRole}
    (h : provisionProtocolRole actor role member w = .ok w') :
    Run (Did true) w (roleEdits actor (role, member)) w' := by
  unfold provisionProtocolRole at h
  simp only [bind_ok_iff] at h
  obtain ⟨_, fresh, w₁, attached, joined⟩ := h
  have made : Did true w (.create role.name actor) (emit (.roleCreated actor role.name actor)
      (storeRole role.name actor w)) := .of_event rfl (.create (checkNewRole_ok fresh))
  have existing : roleExists (emit (.roleCreated actor role.name actor)
      (storeRole role.name actor w)) role.name = true := (Store.has_set_iff ..).2 (.inl rfl)
  have attaching := attachEach_run existing attached
  have still : roleExists w₁ role.name = true :=
    run_roleExists attaching (by simp [Edit.act]) existing
  exact (Run.cons made attaching).trans (joinEach_run still joined)

end Loops

end AccessControl
