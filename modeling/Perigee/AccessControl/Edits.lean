import Perigee.AccessControl.Contract

/-!
# Edits of the tables

`Acl` is what the storage says, and `Edit.act` what an elementary edit does to it.  `EditStep` is
what the code writes for an edit, with what it has checked before; it does the same (`EditStep.acl`)
and keeps the tables in agreement (`Indexed.edit`).
-/

namespace AccessControl

open Soroban Function

variable {Address : Type} [DecidableEq Address] {w w' : World Address}

/-! ## The access control list -/

structure Acl (Address : Type) where
  admin : Option Address := none
  config : Option AclConfig := none
  locked : Bool := false
  granted : Address × Str → Bool := fun _ => false
  roleAdmin : Str → Option Address := fun _ => none
  member : Str × Address → Bool := fun _ => false
  permission : Str × Str → Bool := fun _ => false
  wildcards : List Str := []

def World.acl (w : World Address) : Acl Address where
  admin := w.admin
  config := w.config
  locked := isLocked w
  granted := w.grant.has
  roleAdmin := fun role => w.roleAdmin.lookup role
  member := w.roleMember.has
  permission := w.rolePermission.has
  wildcards := wildcardPrefixes w

/-- How a table of the list is read and written. -/
structure Table (Address K : Type) where
  get : Acl Address → K → Bool
  set : Acl Address → (K → Bool) → Acl Address
  get_set : ∀ acl t, get (set acl t) = t
  set_set : ∀ acl t t', set (set acl t) t' = set acl t'
  set_get : ∀ acl, set acl (get acl) = acl

def grantTable : Table Address (Address × Str) :=
  ⟨Acl.granted, fun acl granted => { acl with granted }, fun _ _ => rfl, fun _ _ _ => rfl,
    fun _ => rfl⟩

def memberTable : Table Address (Str × Address) :=
  ⟨Acl.member, fun acl member => { acl with member }, fun _ _ => rfl, fun _ _ _ => rfl,
    fun _ => rfl⟩

def permissionTable : Table Address (Str × Str) :=
  ⟨Acl.permission, fun acl permission => { acl with permission }, fun _ _ => rfl, fun _ _ _ => rfl,
    fun _ => rfl⟩

/-- An elementary change; `provisioned` marks the protocol roles as set up. -/
inductive Edit (Address : Type) where
  | grant (target : Address) (sel : Str)
  | revoke (target : Address) (sel : Str)
  | attach (role sel : Str)
  | detach (role sel : Str)
  | join (role : Str) (member : Address)
  | leave (role : Str) (member : Address)
  | create (role : Str) (admin : Address)
  | appoint (role : Str) (admin : Address)
  | destroy (role : Str)
  | register (stem : Str)
  | unregister (stem : Str)
  | transfer (admin : Address)
  | configure (admin : Address) (config : AclConfig)
  | lock (active : Bool)
  | provisioned

def Edit.act (acl : Acl Address) : Edit Address → Acl Address
  | .grant target sel => { acl with granted := update acl.granted (target, sel) true }
  | .revoke target sel => { acl with granted := update acl.granted (target, sel) false }
  | .attach role sel => { acl with permission := update acl.permission (role, sel) true }
  | .detach role sel => { acl with permission := update acl.permission (role, sel) false }
  | .join role member => { acl with member := update acl.member (role, member) true }
  | .leave role member => { acl with member := update acl.member (role, member) false }
  | .create role admin | .appoint role admin =>
    { acl with roleAdmin := update acl.roleAdmin role (some admin) }
  | .destroy role => { acl with
      roleAdmin := update acl.roleAdmin role none
      member := fun key => if key.1 = role then false else acl.member key
      permission := fun key => if key.1 = role then false else acl.permission key }
  | .register stem => { acl with wildcards := acl.wildcards ++ [stem] }
  | .unregister stem => { acl with wildcards := acl.wildcards.filter (· ≠ stem) }
  | .transfer admin => { acl with admin := some admin }
  | .configure admin config => { acl with admin := some admin, config := some config }
  | .lock active => { acl with locked := active }
  | .provisioned => acl

/-- What an edit writes, and what has been checked before it. -/
inductive EditStep (w : World Address) : Edit Address → World Address → Prop
  | grant {target : Address} {sel : Str} {kind : SelectorKind}
      (absent : w.grant.has (target, sel) = false) (valid : validateGrantable w sel = .ok kind) :
      EditStep w (.grant target sel) (storeGrant target sel w)
  | revoke {target : Address} {sel : Str} (present : w.grant.has (target, sel) = true) :
      EditStep w (.revoke target sel) (dropGrant target sel w)
  | attach {role sel : Str} {kind : SelectorKind} (existing : roleExists w role = true)
      (absent : w.rolePermission.has (role, sel) = false)
      (valid : validateGrantable w sel = .ok kind) :
      EditStep w (.attach role sel) (storeRolePermission role sel w)
  | detach {role sel : Str} (present : w.rolePermission.has (role, sel) = true) :
      EditStep w (.detach role sel) (dropRolePermission role sel w)
  | join {role : Str} {member : Address} (existing : roleExists w role = true)
      (absent : w.roleMember.has (role, member) = false) :
      EditStep w (.join role member) (storeRoleMember role member w)
  | leave {role : Str} {member : Address} (present : w.roleMember.has (role, member) = true) :
      EditStep w (.leave role member) (dropRoleMember role member w)
  | create {role : Str} {admin : Address} (absent : roleExists w role = false) :
      EditStep w (.create role admin) (storeRole role admin w)
  | appoint {role : Str} {admin : Address} (existing : roleExists w role = true) :
      EditStep w (.appoint role admin) { w with roleAdmin := w.roleAdmin.set role admin }
  | destroy {role : Str} (detached : ∀ sel, w.rolePermission.has (role, sel) = false)
      (left : ∀ member, w.roleMember.has (role, member) = false) :
      EditStep w (.destroy role) (dropRole role w)
  | register {stem : Str} (absent : stem ∉ wildcardPrefixes w) :
      EditStep w (.register stem)
        { w with wildcards := w.wildcards.writeList () (wildcardPrefixes w ++ [stem]) }
  | unregister {stem : Str} (unused : wildcardUse w stem = 0) :
      EditStep w (.unregister stem)
        { w with wildcards := w.wildcards.writeList () ((wildcardPrefixes w).filter (· ≠ stem)) }
  | transfer {admin : Address} : EditStep w (.transfer admin) { w with admin := some admin }
  | configure {admin : Address} {config : AclConfig} (root : w.admin = some admin) :
      EditStep w (.configure admin config) { w with config := some config }
  | found {admin : Address} {config : AclConfig} (unlocked : isLocked w = false) :
      EditStep w (.configure admin config)
        { w with admin := some admin, config := some config, lockdown := some false }
  | lock {active : Bool} (rooted : w.admin ≠ none) :
      EditStep w (.lock active) { w with lockdown := some active }
  | provisioned : EditStep w .provisioned { w with protocolRolesConfigured := some true }

omit [DecidableEq Address] in
theorem trackWildcardUse_eq (sel : Str) (delta : ℤ) (w : World Address) :
    ∃ wildcardUse, trackWildcardUse sel delta w = { w with wildcardUse } := by
  unfold trackWildcardUse bumpWildcardUse
  split
  · dsimp only
    split_ifs
    · exact ⟨_, rfl⟩
    · exact ⟨_, rfl⟩
  · exact ⟨_, rfl⟩

section Track

omit [DecidableEq Address]
variable (sel : Str) (delta : ℤ) (w : World Address)

@[simp] theorem trackWildcardUse_grant : (trackWildcardUse sel delta w).grant = w.grant := by
  obtain ⟨_, eq⟩ := trackWildcardUse_eq sel delta w
  rw [eq]

@[simp] theorem trackWildcardUse_rolePermission :
    (trackWildcardUse sel delta w).rolePermission = w.rolePermission := by
  obtain ⟨_, eq⟩ := trackWildcardUse_eq sel delta w
  rw [eq]

@[simp] theorem trackWildcardUse_wildcards :
    (trackWildcardUse sel delta w).wildcards = w.wildcards := by
  obtain ⟨_, eq⟩ := trackWildcardUse_eq sel delta w
  rw [eq]

end Track

@[simp] theorem acl_track (sel : Str) (delta : ℤ) (w : World Address) :
    (trackWildcardUse sel delta w).acl = w.acl := by
  obtain ⟨_, eq⟩ := trackWildcardUse_eq sel delta w
  rw [eq]
  rfl

variable {e : Edit Address}

theorem EditStep.acl (step : EditStep w e w') : w'.acl = e.act w.acl := by
  cases step with
  | grant =>
    rw [storeGrant, acl_track]
    exact congrArg (grantTable.set w.acl) (Store.has_set ..)
  | revoke =>
    rw [dropGrant, acl_track]
    exact congrArg (grantTable.set w.acl) (Store.has_remove ..)
  | attach =>
    rw [storeRolePermission, acl_track]
    exact congrArg (permissionTable.set w.acl) (Store.has_set ..)
  | detach =>
    rw [dropRolePermission, acl_track]
    exact congrArg (permissionTable.set w.acl) (Store.has_remove ..)
  | join => exact congrArg (memberTable.set w.acl) (Store.has_set ..)
  | leave => exact congrArg (memberTable.set w.acl) (Store.has_remove ..)
  | create | appoint =>
    exact congrArg (fun roleAdmin => { w.acl with roleAdmin }) (Store.lookup_set_eq ..)
  | @destroy role detached left =>
    have none {K : Type} (table : Str × K → Bool) (gone : ∀ k, table (role, k) = false) :
        (fun key => if key.1 = role then false else table key) = table := by
      funext ⟨r, k⟩
      split_ifs with same
      · exact (same ▸ gone k).symm
      · rfl
    rw [Edit.act, none w.acl.member left, none w.acl.permission detached]
    exact congrArg (fun roleAdmin => { w.acl with roleAdmin }) (w.roleAdmin.lookup_remove_eq role)
  | register | unregister =>
    exact congrArg (fun wildcards => { w.acl with wildcards })
      ((w.wildcards.readList_writeList () () _).trans (if_pos rfl))
  | configure root =>
    rw [Edit.act, ← root]
    rfl
  | found unlocked =>
    rw [Edit.act, show w.acl.locked = false from unlocked]
    rfl
  | transfer | lock | provisioned => rfl

/-! ## Edits with their events -/

/-- The edit that an event reports. -/
def Event.edit : Event Address → Edit Address
  | .grant _ target sel granted _ => if granted then .grant target sel else .revoke target sel
  | .rolePermission _ role sel granted _ => if granted then .attach role sel else .detach role sel
  | .roleMember _ role member granted _ => if granted then .join role member else .leave role member
  | .roleCreated _ role admin => .create role admin
  | .roleAdmin _ role admin => .appoint role admin
  | .roleDestroyed _ role _ _ => .destroy role
  | .wildcard _ pattern registered =>
    if registered then .register pattern.dropLast else .unregister pattern.dropLast
  | .adminTransferred _ _ newAdmin => .transfer newAdmin
  | .lockdown _ active => .lock active
  | .config actor settings => .configure actor settings

def replay (acl : Acl Address) (event : Event Address) : Acl Address := event.edit.act acl

/-- The edit was made, or there was nothing to do.  A noted one has published events that tell what
it has done. -/
inductive Did (noted : Bool) (w : World Address) (e : Edit Address) : World Address → Prop
  | idle (same : e.act w.acl = w.acl) : Did noted w e w
  | made {u : World Address} {events : List (Event Address)} (step : EditStep w e u)
      (reported : noted = true → events.foldl replay w.acl = u.acl) :
      Did noted w e { u with events := u.events ++ events }

variable {noted : Bool}

theorem Did.of_event {event : Event Address} (reports : event.edit = e) (step : EditStep w e w') :
    Did noted w e (emit event w') := by
  subst reports
  exact Did.made step fun _ => step.acl.symm

theorem Did.unreported (step : EditStep w e w') (same : noted = true → w'.acl = w.acl) :
    Did noted w e w' := by
  have did : Did noted w e { w' with events := w'.events ++ [] } :=
    .made step fun reporting => (same reporting).symm
  rwa [List.append_nil] at did

theorem Did.acl (did : Did noted w e w') : w'.acl = e.act w.acl := by
  cases did with
  | idle same => exact same.symm
  | made step => exact step.acl

theorem run_acl {es : List (Edit Address)} (run : Run (Did noted) w es w') :
    w'.acl = es.foldl Edit.act w.acl := by
  induction run with
  | nil => rfl
  | snoc _ last ih => rw [last.acl, ih, List.foldl_append, List.foldl_cons, List.foldl_nil]

theorem Table.foldl_act {K α : Type} [DecidableEq K] (table : Table Address K)
    (edit : α → Edit Address) (key : α → K) (flag : Bool)
    (act : ∀ acl x, (edit x).act acl = table.set acl (update (table.get acl) (key x) flag))
    (xs : List α) (acl : Acl Address) : (xs.map edit).foldl Edit.act acl =
      table.set acl fun k => if xs.any (fun x => key x = k) then flag else table.get acl k := by
  induction xs generalizing acl with
  | nil => simpa using (table.set_get acl).symm
  | cons x _ ih =>
    rw [List.map_cons, List.foldl_cons, act, ih, table.set_set, table.get_set]
    refine congrArg (table.set acl) (funext fun k => ?_)
    by_cases here : key x = k
    · simp [here]
    · simp [here, update_of_ne (Ne.symm here)]

section Folds

variable (role : Str) (sels : List Str) (members : List Address) (acl : Acl Address)

theorem foldl_revoke (target : Address) : (sels.map (.revoke target)).foldl Edit.act acl =
    grantTable.set acl fun k => if sels.any (fun s => (target, s) = k) then false
      else acl.granted k :=
  grantTable.foldl_act (.revoke target) (target, ·) false (fun _ _ => rfl) sels acl

theorem foldl_attach : (sels.map (.attach role)).foldl Edit.act acl = permissionTable.set acl
    fun k => if sels.any (fun s => (role, s) = k) then true else acl.permission k :=
  permissionTable.foldl_act (.attach role) (role, ·) true (fun _ _ => rfl) sels acl

theorem foldl_detach : (sels.map (.detach role)).foldl Edit.act acl = permissionTable.set acl
    fun k => if sels.any (fun s => (role, s) = k) then false else acl.permission k :=
  permissionTable.foldl_act (.detach role) (role, ·) false (fun _ _ => rfl) sels acl

theorem foldl_join : (members.map (.join role)).foldl Edit.act acl = memberTable.set acl
    fun k => if members.any (fun a => (role, a) = k) then true else acl.member k :=
  memberTable.foldl_act (.join role) (role, ·) true (fun _ _ => rfl) members acl

theorem foldl_leave : (members.map (.leave role)).foldl Edit.act acl = memberTable.set acl
    fun k => if members.any (fun a => (role, a) = k) then false else acl.member k :=
  memberTable.foldl_act (.leave role) (role, ·) false (fun _ _ => rfl) members acl

end Folds

theorem Did.idle_table {K : Type} [DecidableEq K] (table : Table Address K) {key : K} {flag : Bool}
    (act : e.act w.acl = table.set w.acl (update (table.get w.acl) key flag))
    (same : table.get w.acl key = flag) : Did noted w e w := by
  refine .idle ?_
  rw [act, update_eq_self_iff.2 same.symm, table.set_get]

theorem run_roleExists {es : List (Edit Address)} {role : Str} (run : Run (Did noted) w es w')
    (same : ∀ e ∈ es, ∀ acl : Acl Address, (e.act acl).roleAdmin = acl.roleAdmin)
    (existing : roleExists w role = true) : roleExists w' role = true := by
  refine run.invariant_of_mem (P := fun w => roleExists w role = true) existing ?_
  intro _ e w₂ mem existing did
  change (w₂.acl.roleAdmin role).isSome = true
  rwa [did.acl, same e mem]

/-! ## Coherent tables -/

structure Indexed (w : World Address) : Prop where
  grants : w.grants.Lists fun a s => w.grant.has (a, s) = true
  members : w.members.Lists fun r a => w.roleMember.has (r, a) = true
  roles : w.roles.Lists fun a r => w.roleMember.has (r, a) = true
  permissions : w.permissions.Lists fun r s => w.rolePermission.has (r, s) = true
  roleList : w.roleList.Lists fun _ r => roleExists w r = true
  joined : ∀ r a, w.roleMember.has (r, a) = true → roleExists w r = true
  attached : ∀ r s, w.rolePermission.has (r, s) = true → roleExists w r = true
  formed : ∀ a s, w.grant.has (a, s) = true → WellFormed s
  formedRole : ∀ r s, w.rolePermission.has (r, s) = true → WellFormed s

theorem Indexed.empty : Indexed ({} : World Address) where
  grants := Store.Lists.empty.congr fun _ _ => by simp
  members := Store.Lists.empty.congr fun _ _ => by simp
  roles := Store.Lists.empty.congr fun _ _ => by simp
  permissions := Store.Lists.empty.congr fun _ _ => by simp
  roleList := Store.Lists.empty.congr fun _ _ => by simp [roleExists]
  joined := by simp
  attached := by simp
  formed := by simp
  formedRole := by simp

theorem Indexed.track (indexed : Indexed w) (sel : Str) (delta : ℤ) :
    Indexed (trackWildcardUse sel delta w) := by
  obtain ⟨_, eq⟩ := trackWildcardUse_eq sel delta w
  rw [eq]
  exact { indexed with }

omit [DecidableEq Address] in
theorem validateGrantable_ok {sel : Str} {kind : SelectorKind}
    (valid : validateGrantable w sel = .ok kind) :
    WellFormed sel ∧ ∀ stem, classify sel = .ok (.namespaced stem) → stem ∈ wildcardPrefixes w := by
  unfold validateGrantable at valid
  simp only [ok_iff] at valid
  obtain ⟨kind, classified, _, registered, rfl⟩ := valid
  refine ⟨(classify_ok_iff sel).1 ⟨kind, classified⟩, fun stem namespaced => ?_⟩
  obtain rfl := Except.ok.inj (classified.symm.trans namespaced)
  rw [requireRegistered, reject_ok_iff, not_not] at registered
  exact registered

theorem Indexed.edit (indexed : Indexed w) (step : EditStep w e w') : Indexed w' := by
  cases step with
  | @grant _ _ _ absent valid =>
    apply Indexed.track
    refine { indexed with grants := ?_, formed := ?_ }
    · refine (indexed.grants.push (by simp [absent])).congr fun a s => ?_
      simp
    · exact Store.forall_has_set indexed.formed (validateGrantable_ok valid).1
  | @revoke target sel =>
    apply Indexed.track
    refine { indexed with grants := ?_, formed := ?_ }
    · refine (indexed.grants.drop target sel).congr fun a s => ?_
      simp
    · intro a s stored
      exact indexed.formed a s ((Store.has_remove_iff ..).1 stored).2
  | @attach _ _ _ existing absent valid =>
    apply Indexed.track
    refine { indexed with permissions := ?_, attached := ?_, formedRole := ?_ }
    · refine (indexed.permissions.push (by simp [absent])).congr fun r s => ?_
      simp
    · exact Store.forall_has_set indexed.attached existing
    · exact Store.forall_has_set indexed.formedRole (validateGrantable_ok valid).1
  | @detach role sel =>
    apply Indexed.track
    refine { indexed with permissions := ?_, attached := ?_, formedRole := ?_ }
    · refine (indexed.permissions.drop role sel).congr fun r s => ?_
      simp
    · intro r s stored
      exact indexed.attached r s ((Store.has_remove_iff ..).1 stored).2
    · intro r s stored
      exact indexed.formedRole r s ((Store.has_remove_iff ..).1 stored).2
  | @join _ _ existing absent =>
    refine { indexed with members := ?_, roles := ?_, joined := ?_ }
    · refine (indexed.members.push (by simp [absent])).congr fun r a => ?_
      simp [storeRoleMember]
    · refine (indexed.roles.push (by simp [absent])).congr fun a r => ?_
      simp [storeRoleMember, and_comm]
    · exact Store.forall_has_set indexed.joined existing
  | @leave role member =>
    refine { indexed with members := ?_, roles := ?_, joined := ?_ }
    · refine (indexed.members.drop role member).congr fun r a => ?_
      simp [dropRoleMember]
    · refine (indexed.roles.drop member role).congr fun a r => ?_
      simp [dropRoleMember, and_comm]
    · intro r a stored
      exact indexed.joined r a ((Store.has_remove_iff ..).1 stored).2
  | @create role admin absent =>
    have kept (r : Str) (existing : roleExists w r = true) :
        roleExists (storeRole role admin w) r = true := (Store.has_set_iff ..).2 (.inr existing)
    refine { indexed with roleList := ?_, joined := ?_, attached := ?_ }
    · refine (indexed.roleList.push (k := ()) (by simp [absent])).congr fun _ r => ?_
      simp [storeRole, roleExists]
    · exact fun r a stored => kept r (indexed.joined r a stored)
    · exact fun r s stored => kept r (indexed.attached r s stored)
  | @appoint role admin existing =>
    have same (r : Str) : (w.roleAdmin.set role admin).has r = true ↔ w.roleAdmin.has r = true := by
      rw [Store.has_set_iff]
      exact ⟨fun h => h.elim (fun here => here ▸ existing) id, .inr⟩
    refine { indexed with roleList := ?_, joined := ?_, attached := ?_ }
    · exact indexed.roleList.congr fun _ r => (same r).symm
    · exact fun r a stored => (same r).2 (indexed.joined r a stored)
    · exact fun r s stored => (same r).2 (indexed.attached r s stored)
  | @destroy role detached left =>
    have kept (r : Str) (existing : roleExists w r = true) (other : r ≠ role) :
        roleExists (dropRole role w) r = true := (Store.has_remove_iff ..).2 ⟨other, existing⟩
    refine { indexed with roleList := ?_, joined := ?_, attached := ?_ }
    · refine (indexed.roleList.drop () role).congr fun _ r => ?_
      simp [dropRole, roleExists]
    · intro r a stored
      refine kept r (indexed.joined r a stored) ?_
      rintro rfl
      exact Bool.false_ne_true ((left a).symm.trans stored)
    · intro r s stored
      refine kept r (indexed.attached r s stored) ?_
      rintro rfl
      exact Bool.false_ne_true ((detached s).symm.trans stored)
  | _ => exact { indexed with }

theorem Indexed.did (indexed : Indexed w) (did : Did noted w e w') : Indexed w' := by
  cases did with
  | idle => exact indexed
  | made step => exact { indexed.edit step with }

/-- Nothing is locked before there is an admin. -/
structure Founded (w : World Address) : Prop extends Indexed w where
  unlocked : w.admin = none → isLocked w = false

theorem Founded.did (founded : Founded w) (did : Did noted w e w') : Founded w' := by
  refine ⟨founded.toIndexed.did did, ?_⟩
  change w'.acl.admin = none → w'.acl.locked = false
  rw [did.acl]
  cases did with
  | idle same =>
    rw [same]
    exact founded.unlocked
  | made step =>
    cases step with
    | transfer | configure | found => nofun
    | lock rooted => exact fun none => absurd none rooted
    | _ => exact founded.unlocked

theorem Founded.run {es : List (Edit Address)} (founded : Founded w)
    (run : Run (Did noted) w es w') : Founded w' :=
  run.invariant founded fun _ _ _ founded did => founded.did did

end AccessControl
