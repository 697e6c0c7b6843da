import Perigee.AccessControl.Effects

/-!
# Calls as runs of edits

A call that returns has made the edits that `Call.edits` lists, and what it gives to somebody it was
authorized to give by the root admin or, for a role, by the admin of the role (`exec_edits`).
-/

namespace AccessControl

open Soroban

variable {Address : Type} [DecidableEq Address] {host : Host Address} {w w' : World Address}
  {reply : Reply} {pattern stem : Str}

/-! ## What a call may edit -/

def Edit.raises : Edit Address → Bool
  | .grant .. | .attach .. => true
  | _ => false

def Edit.lowers : Edit Address → Bool
  | .revoke .. | .detach .. => true
  | _ => false

def Call.actor : Call Address → Address
  | .initializeAcl admin _ => admin
  | .setupProtocolRoles actor .. | .transferAdmin actor _ | .setConfig actor _
  | .setLockdown actor _ | .grant actor .. | .revoke actor .. | .batchGrant actor _
  | .batchRevoke actor _ | .createRole actor .. | .setRoleAdmin actor ..
  | .grantRolePermission actor .. | .revokeRolePermission actor .. | .grantRole actor ..
  | .revokeRole actor .. | .destroyRole actor _ | .batchSetMembers actor ..
  | .batchSetPermissions actor .. | .registerWildcard actor _ | .unregisterWildcard actor _ => actor
  | .renounce caller _ | .renounceAll caller | .renounceRole caller _ => caller

def Call.granted : Call Address → List (Address × Str)
  | .grant _ caller sel => [(caller, sel)]
  | .batchGrant _ entries => entries.map fun entry => (entry.target, entry.selector)
  | _ => []

def protocolRoles (owner admin strategist keeper emergency : Address) :
    List (ProtocolRole × Address) :=
  [(.owner, owner), (.admin, admin), (.strategist, strategist), (.keeper, keeper),
    (.emergency, emergency)]

def Call.attached : Call Address → List (Str × Str)
  | .grantRolePermission _ role sel => [(role, sel)]
  | .batchSetPermissions _ role selectors => selectors.map fun sel => (role, sel)
  | .setupProtocolRoles _ owner admin strategist keeper emergency =>
    (protocolRoles owner admin strategist keeper emergency).flatMap fun role =>
      (protocolRolePermissions role.1).map fun sel => (role.1.name, sel)
  | _ => []

def Call.joined : Call Address → List (Str × Address)
  | .grantRole _ role member => [(role, member)]
  | .batchSetMembers _ role members => members.map fun member => (role, member)
  | .setupProtocolRoles _ owner admin strategist keeper emergency =>
    (protocolRoles owner admin strategist keeper emergency).map fun role => (role.1.name, role.2)
  | _ => []

def Call.appointed : Call Address → List (Str × Address)
  | .createRole _ role roleAdmin => [(role, roleAdmin)]
  | .setRoleAdmin _ role newAdmin => [(role, newAdmin)]
  | .setupProtocolRoles actor owner admin strategist keeper emergency =>
    (protocolRoles owner admin strategist keeper emergency).map fun role => (role.1.name, actor)
  | _ => []

/-- The edits of a call, in order. -/
def Call.edits (w : World Address) : Call Address → List (Edit Address)
  | .initializeAcl admin config | .setConfig admin config => [.configure admin config]
  | .setupProtocolRoles actor owner admin strategist keeper emergency =>
    (protocolRoles owner admin strategist keeper emergency).flatMap (roleEdits actor) ++
      [.provisioned]
  | .transferAdmin _ newAdmin => [.transfer newAdmin]
  | .setLockdown _ active => [.lock active]
  | .grant _ caller sel => [.grant caller sel]
  | .revoke _ caller sel | .renounce caller sel => [.revoke caller sel]
  | .batchGrant _ entries => entries.map fun entry => .grant entry.target entry.selector
  | .batchRevoke _ entries => entries.map fun entry => .revoke entry.target entry.selector
  | .renounceAll caller => (w.grants.readList caller).map (.revoke caller) ++
      (w.roles.readList caller).map (.leave · caller)
  | .createRole _ role roleAdmin => [.create role roleAdmin]
  | .setRoleAdmin _ role newAdmin => [.appoint role newAdmin]
  | .grantRolePermission _ role sel => [.attach role sel]
  | .revokeRolePermission _ role sel => [.detach role sel]
  | .grantRole _ role member => [.join role member]
  | .revokeRole _ role member | .renounceRole member role => [.leave role member]
  | .destroyRole _ role => (w.permissions.readList role).map (.detach role) ++
      (w.members.readList role).map (.leave role) ++ [.destroy role]
  | .batchSetMembers _ role members =>
    ((w.members.readList role).filter (· ∉ members)).map (.leave role) ++ members.map (.join role)
  | .batchSetPermissions _ role selectors =>
    ((w.permissions.readList role).filter (· ∉ selectors)).map (.detach role) ++
      selectors.map (.attach role)
  | .registerWildcard _ pattern =>
    if pattern.dropLast ∈ wildcardPrefixes w then [] else [.register pattern.dropLast]
  | .unregisterWildcard _ pattern => [.unregister pattern.dropLast]

/-- A role is destroyed with one event for all its edits. -/
def Call.noted : Call Address → Bool
  | .destroyRole .. => false
  | _ => true

/-- What a call from `w` may give to somebody. -/
def MayEdit (host : Host Address) (w : World Address) (call : Call Address) :
    Edit Address → Prop
  | .grant target sel => ByRoot host w call.actor ∧ (target, sel) ∈ call.granted
  | .attach role sel => ByAdmin host w call.actor role ∧ (role, sel) ∈ call.attached
  | .join role member => ByAdmin host w call.actor role ∧ (role, member) ∈ call.joined
  | .create role admin | .appoint role admin =>
    ByRoot host w call.actor ∧ (role, admin) ∈ call.appointed
  | _ => True

/-! ## Calls -/

section Replies

omit [DecidableEq Address]

theorem replyUnit_ok_iff {r : Outcome Error (World Address)} :
    replyUnit r = .ok (reply, w') ↔ r = .ok w' ∧ .unit = reply := by
  simp [replyUnit, map_ok_iff]

theorem replyFlag_ok_iff {r : Outcome Error (Bool × World Address)} :
    replyFlag r = .ok (reply, w') ↔ ∃ flag, r = .ok (flag, w') ∧ .flag flag = reply := by
  simp [replyFlag, map_ok_iff]

theorem replyCount_ok_iff {r : Outcome Error (ℕ × World Address)} :
    replyCount r = .ok (reply, w') ↔ ∃ count, r = .ok (count, w') ∧ .count count = reply := by
  simp [replyCount, map_ok_iff]

end Replies

theorem namespacePrefix_ok_iff :
    namespacePrefix pattern = .ok stem ↔ classify pattern = .ok (.namespaced stem) := by
  unfold namespacePrefix
  split <;> simp_all

theorem dropLast_of_namespacePrefix (h : namespacePrefix pattern = .ok stem) :
    pattern.dropLast = stem := by
  obtain ⟨-, -, rfl⟩ := classify_namespaced_iff.1 (namespacePrefix_ok_iff.1 h)
  exact List.dropLast_concat

def Edits (host : Host Address) (w : World Address) (call : Call Address) (w' : World Address) :
    Prop :=
  Run (Did call.noted) w (call.edits w) w' ∧ ∀ e ∈ call.edits w, MayEdit host w call e

variable {call : Call Address}

theorem Edits.one {e : Edit Address} (only : call.edits w = [e]) (did : Did call.noted w e w')
    (may : MayEdit host w call e) : Edits host w call w' := by
  unfold Edits
  rw [only]
  exact ⟨.cons did .nil, by simpa using may⟩

theorem setupProtocolRoles_edits {actor owner admin strategist keeper emergency : Address}
    (h : setupProtocolRoles host actor owner admin strategist keeper emergency w = .ok w') :
    Edits host w (.setupProtocolRoles actor owner admin strategist keeper emergency) w' := by
  unfold setupProtocolRoles at h
  simp only [ok_iff] at h
  obtain ⟨_, root, _, _, _, _, _, own, _, adm, _, str, _, kee, w₅, eme, rfl⟩ := h
  have byRoot := requireRoot_ok root
  have roles : Run (Did true) w ((protocolRoles owner admin strategist keeper emergency).flatMap
      (roleEdits actor)) w₅ :=
    (provisionProtocolRole_run own).trans ((provisionProtocolRole_run adm).trans
      ((provisionProtocolRole_run str).trans ((provisionProtocolRole_run kee).trans
        ((provisionProtocolRole_run eme).trans .nil))))
  refine ⟨roles.snoc (.unreported .provisioned fun _ => rfl), fun e mem => ?_⟩
  -- every protocol role is created, filled and joined on behalf of the root admin
  simp only [Call.edits, List.mem_append, List.mem_flatMap, roleEdits, List.mem_cons, List.mem_map,
    List.not_mem_nil, or_false] at mem
  rcases mem with ⟨role, listed, (rfl | ⟨sel, there, rfl⟩) | rfl⟩ | rfl
  · exact ⟨byRoot, List.mem_map.2 ⟨role, listed, rfl⟩⟩
  · exact ⟨byRoot.byAdmin _, List.mem_flatMap.2 ⟨role, listed, List.mem_map.2 ⟨sel, there, rfl⟩⟩⟩
  · exact ⟨byRoot.byAdmin _, List.mem_map.2 ⟨role, listed, rfl⟩⟩
  · trivial

theorem destroyRole_edits {actor : Address} {role : Str} {count : ℕ} (indexed : Indexed w)
    (h : destroyRole host actor role w = .ok (count, w')) :
    Edits host w (.destroyRole actor role) w' := by
  unfold destroyRole at h
  simp only [ok_iff] at h
  obtain ⟨_, _, _, _, _, _, _, _, -, rfl⟩ := h
  set w₁ := detachEach role (w.permissions.readList role) w
  set w₂ := leaveEach role (w.members.readList role) w₁
  have detaching : Run (Did false) w _ w₁ := detachEach_run role (w.permissions.readList role) w
  have emptied : Run (Did false) w _ w₂ := detaching.trans (leaveEach_run ..)
  have acl := run_acl emptied
  rw [List.foldl_append, foldl_detach, foldl_leave] at acl
  have detached (sel : Str) : w₂.acl.permission (role, sel) = false := by
    rw [acl]
    simpa [memberTable, permissionTable, World.acl] using mt ((indexed.permissions role).2 sel).2
  have left (member : Address) : w₂.acl.member (role, member) = false := by
    rw [acl]
    simpa [memberTable, permissionTable, World.acl] using mt ((indexed.members role).2 member).2
  refine ⟨emptied.snoc (.of_event rfl (.destroy detached left)), fun e mem => ?_⟩
  simp only [Call.edits, List.mem_append, List.mem_map, List.mem_singleton] at mem
  rcases mem with (⟨_, -, rfl⟩ | ⟨_, -, rfl⟩) | rfl <;> trivial

theorem exec_edits (founded : Founded w) (h : exec host w call = .ok (reply, w')) :
    Edits host w call w' := by
  cases call <;>
    simp only [exec, replyUnit_ok_iff, replyFlag_ok_iff, replyCount_ok_iff, ok_iff, not_not,
      initializeAcl, transferAdmin, setConfig, setLockdown, grant, revoke, batchGrant, batchRevoke,
      renounce, renounceAll, createRole, setRoleAdmin, grantRolePermission, revokeRolePermission,
      grantRole, revokeRole, renounceRole, batchSetMembers, batchSetPermissions, registerWildcard,
      unregisterWildcard] at h
  case initializeAcl admin config =>
    obtain ⟨⟨_, fresh, _, _, _, _, rfl⟩, -⟩ := h
    exact .one rfl (.of_event rfl (.found (founded.unlocked (by simpa using fresh)))) trivial
  case setupProtocolRoles => exact setupProtocolRoles_edits h.1
  case transferAdmin =>
    obtain ⟨⟨_, _, _, _, rfl⟩, -⟩ := h
    exact .one rfl (.of_event rfl .transfer) trivial
  case setConfig =>
    obtain ⟨⟨_, root, _, _, _, _, rfl⟩, -⟩ := h
    exact .one rfl (.of_event rfl (.configure (requireRoot_ok root).admin)) trivial
  case setLockdown =>
    obtain ⟨⟨_, root, rfl⟩, -⟩ := h
    have rooted : w.admin ≠ none := by simp [(requireRoot_ok root).admin]
    exact .one rfl (.of_event rfl (.lock rooted)) trivial
  case grant =>
    obtain ⟨_, ⟨_, root, _, _, ⟨added, w₁⟩, granted, -, rfl⟩, -⟩ := h
    exact .one rfl (applyGrant_did granted ..) ⟨requireRoot_ok root, by simp [Call.granted]⟩
  case revoke =>
    obtain ⟨_, ⟨_, _, _, _, -, rfl⟩, -⟩ := h
    exact .one rfl (applyRevoke_did ..) trivial
  case batchGrant =>
    obtain ⟨_, ⟨_, root, _, _, _, _, h⟩, -⟩ := h
    refine ⟨grantEach_run h, List.forall_mem_map.2 fun entry there => ?_⟩
    exact ⟨requireRoot_ok root, List.mem_map.2 ⟨entry, there, rfl⟩⟩
  case batchRevoke =>
    obtain ⟨_, ⟨_, _, _, _, _, _, h⟩, -⟩ := h
    exact ⟨revokeEach_run h, List.forall_mem_map.2 fun _ _ => trivial⟩
  case renounce =>
    obtain ⟨_, ⟨_, _, -, rfl⟩, -⟩ := h
    exact .one rfl (applyRevoke_did ..) trivial
  case renounceAll =>
    obtain ⟨_, ⟨_, _, ⟨_, w₁⟩, grants, roles⟩, -⟩ := h
    obtain ⟨revoking, same⟩ := renounceGrants_run grants
    rw [same] at roles
    refine ⟨revoking.trans (renounceRoles_run roles), List.forall_mem_append.2 ⟨?_, ?_⟩⟩ <;>
      exact List.forall_mem_map.2 fun _ _ => trivial
  case createRole =>
    obtain ⟨⟨_, root, _, _, _, fresh, rfl⟩, -⟩ := h
    exact .one rfl (.of_event rfl (.create (checkNewRole_ok fresh)))
      ⟨requireRoot_ok root, by simp [Call.appointed]⟩
  case setRoleAdmin =>
    obtain ⟨⟨_, root, _, _, _, existing, rfl⟩, -⟩ := h
    exact .one rfl (.of_event rfl (.appoint existing))
      ⟨requireRoot_ok root, by simp [Call.appointed]⟩
  case grantRolePermission =>
    obtain ⟨_, ⟨_, manage, ⟨added, w₁⟩, attached, -, rfl⟩, -⟩ := h
    obtain ⟨existing, admin⟩ := manageRole_ok manage
    exact .one rfl (applyRolePermission_did existing attached ..) ⟨admin, by simp [Call.attached]⟩
  case revokeRolePermission =>
    obtain ⟨_, ⟨_, _, -, rfl⟩, -⟩ := h
    exact .one rfl ((applyRoleRevoke_did _ _ w).2 ..) trivial
  case grantRole =>
    obtain ⟨_, ⟨_, manage, ⟨added, w₁⟩, joined, -, rfl⟩, -⟩ := h
    obtain ⟨existing, admin⟩ := manageRole_ok manage
    exact .one rfl (applyRoleMember_did existing joined ..) ⟨admin, by simp [Call.joined]⟩
  case revokeRole | renounceRole =>
    obtain ⟨_, ⟨_, _, -, rfl⟩, -⟩ := h
    exact .one rfl ((applyRoleMemberRevoke_did _ _ w).2 ..) trivial
  case destroyRole =>
    obtain ⟨_, h, -⟩ := h
    exact destroyRole_edits founded.toIndexed h
  case batchSetMembers actor role members =>
    obtain ⟨_, ⟨_, manage, _, _, w₂, joined, -, rfl⟩, -⟩ := h
    obtain ⟨existing, admin⟩ := manageRole_ok manage
    have leaving := leaveOthers_run actor role members members.length (w.members.readList role) w
    have still := run_roleExists leaving (List.forall_mem_map.2 fun _ _ _ => rfl) existing
    refine ⟨leaving.trans (joinEach_run still joined), List.forall_mem_append.2
      ⟨List.forall_mem_map.2 fun _ _ => trivial, List.forall_mem_map.2 fun member there => ?_⟩⟩
    exact ⟨admin, List.mem_map.2 ⟨member, there, rfl⟩⟩
  case batchSetPermissions actor role selectors =>
    obtain ⟨_, ⟨_, manage, _, _, w₂, attached, -, rfl⟩, -⟩ := h
    obtain ⟨existing, admin⟩ := manageRole_ok manage
    have detaching := detachOthers_run actor role selectors selectors.length
      (w.permissions.readList role) w
    have still := run_roleExists detaching (List.forall_mem_map.2 fun _ _ _ => rfl) existing
    refine ⟨detaching.trans (attachEach_run still attached), List.forall_mem_append.2
      ⟨List.forall_mem_map.2 fun _ _ => trivial, List.forall_mem_map.2 fun sel there => ?_⟩⟩
    exact ⟨admin, List.mem_map.2 ⟨sel, there, rfl⟩⟩
  case registerWildcard =>
    obtain ⟨_, ⟨_, _, _, _, stem, named, h⟩, -⟩ := h
    obtain rfl := dropLast_of_namespacePrefix named
    split_ifs at h with registered
    · obtain ⟨-, rfl⟩ := Prod.mk.inj (pure_ok_iff.1 h)
      simpa [Edits, Call.edits, registered] using Run.nil
    · simp only [ok_iff] at h
      obtain ⟨_, _, _, _, -, rfl⟩ := h
      exact .one (if_neg registered) (.of_event rfl (.register registered)) trivial
  case unregisterWildcard =>
    obtain ⟨_, ⟨_, _, _, _, stem, named, _, _, _, unused, -, rfl⟩, -⟩ := h
    obtain rfl := dropLast_of_namespacePrefix named
    exact .one rfl (.of_event rfl (.unregister (Nat.eq_zero_of_not_pos unused))) trivial

section Steps

variable {action : Action Address} {F : Acl Address → Prop} {R : Edit Address → Prop}

theorem step_edits (founded : Founded w) (step : Step w action w') :
    Edits action.host w action.call w' := by
  obtain ⟨⟨_, _⟩, h, rfl⟩ := map_ok_iff.1 step
  exact exec_edits founded h

theorem Founded.step (founded : Founded w) (step : Step w action w') : Founded w' :=
  founded.run (step_edits founded step).1

theorem founded_run {actions : List (Action Address)} (run : Run Step {} actions w) : Founded w :=
  run.invariant ⟨Indexed.empty, fun _ => rfl⟩ fun _ _ _ founded last => founded.step last

/-! ## What a call can add -/

/-- A fact that only some edits can bring about was there before or is the work of such an edit. -/
theorem foldl_gain (gain : ∀ acl (e : Edit Address), F (e.act acl) → F acl ∨ R e)
    {es : List (Edit Address)} {acl : Acl Address} (h : F (es.foldl Edit.act acl)) :
    F acl ∨ ∃ e ∈ es, R e := by
  induction es generalizing acl with
  | nil => exact .inl h
  | cons e _ ih =>
    rcases ih h with h | ⟨e', mem, adds⟩
    · exact (gain acl e h).imp_right fun adds => ⟨e, List.mem_cons_self, adds⟩
    · exact .inr ⟨e', List.mem_cons_of_mem e mem, adds⟩

theorem step_gain (gain : ∀ acl (e : Edit Address), F (e.act acl) → F acl ∨ R e)
    (founded : Founded w) (step : Step w action w') (h : F w'.acl) :
    F w.acl ∨ ∃ e, MayEdit action.host w action.call e ∧ R e := by
  obtain ⟨run, may⟩ := step_edits founded step
  rw [run_acl run] at h
  exact (foldl_gain gain h).imp_right fun ⟨e, mem, adds⟩ => ⟨e, may e mem, adds⟩

theorem of_update {K V : Type} [DecidableEq K] {table : K → V} {key k : K} {put v : V}
    (h : Function.update table key put k = v) : table k = v ∨ k = key ∧ put = v := by
  rw [Function.update_apply] at h
  split_ifs at h with same
  · exact .inr ⟨same, h⟩
  · exact .inl h

variable {a : Address} {role sel : Str}

theorem step_grant (founded : Founded w) (step : Step w action w')
    (stored : w'.grant.has (a, sel) = true) :
    w.grant.has (a, sel) = true ∨
      ByRoot action.host w action.call.actor ∧ (a, sel) ∈ action.call.granted := by
  refine (step_gain (F := fun acl => acl.granted (a, sel) = true) (R := (· = .grant a sel)) ?_
    founded step stored).imp_right ?_
  · intro acl e stored
    cases e with
    | grant => exact (of_update stored).imp_right fun ⟨rfl, _⟩ => rfl
    | revoke => exact (of_update stored).imp_right fun ⟨_, absurd⟩ => nomatch absurd
    | _ => exact .inl stored
  · rintro ⟨_, may, rfl⟩
    exact may

theorem step_rolePermission (founded : Founded w) (step : Step w action w')
    (stored : w'.rolePermission.has (role, sel) = true) :
    w.rolePermission.has (role, sel) = true ∨
      ByAdmin action.host w action.call.actor role ∧ (role, sel) ∈ action.call.attached := by
  refine (step_gain (F := fun acl => acl.permission (role, sel) = true)
    (R := (· = .attach role sel)) ?_ founded step stored).imp_right ?_
  · intro acl e stored
    cases e with
    | attach => exact (of_update stored).imp_right fun ⟨rfl, _⟩ => rfl
    | detach => exact (of_update stored).imp_right fun ⟨_, absurd⟩ => nomatch absurd
    | destroy =>
      simp only [Edit.act, Bool.if_false_left, Bool.and_eq_true] at stored
      exact .inl stored.2
    | _ => exact .inl stored
  · rintro ⟨_, may, rfl⟩
    exact may

theorem step_roleMember (founded : Founded w) (step : Step w action w')
    (stored : w'.roleMember.has (role, a) = true) :
    w.roleMember.has (role, a) = true ∨
      ByAdmin action.host w action.call.actor role ∧ (role, a) ∈ action.call.joined := by
  refine (step_gain (F := fun acl => acl.member (role, a) = true) (R := (· = .join role a)) ?_
    founded step stored).imp_right ?_
  · intro acl e stored
    cases e with
    | join => exact (of_update stored).imp_right fun ⟨rfl, _⟩ => rfl
    | leave => exact (of_update stored).imp_right fun ⟨_, absurd⟩ => nomatch absurd
    | destroy =>
      simp only [Edit.act, Bool.if_false_left, Bool.and_eq_true] at stored
      exact .inl stored.2
    | _ => exact .inl stored
  · rintro ⟨_, may, rfl⟩
    exact may

theorem step_roleAdmin (founded : Founded w) (step : Step w action w')
    (stored : w'.roleAdmin.lookup role = some a) :
    w.roleAdmin.lookup role = some a ∨
      ByRoot action.host w action.call.actor ∧ (role, a) ∈ action.call.appointed := by
  refine (step_gain (F := fun acl => acl.roleAdmin role = some a)
    (R := fun e => e = .create role a ∨ e = .appoint role a) ?_ founded step stored).imp_right ?_
  · intro acl e stored
    cases e with
    | create => exact (of_update stored).imp_right fun ⟨rfl, rfl⟩ => .inl rfl
    | appoint => exact (of_update stored).imp_right fun ⟨rfl, rfl⟩ => .inr rfl
    | destroy => exact (of_update stored).imp_right fun ⟨_, absurd⟩ => nomatch absurd
    | _ => exact .inl stored
  · rintro ⟨_, may, rfl | rfl⟩
    · exact may
    · exact may

end Steps

end AccessControl
