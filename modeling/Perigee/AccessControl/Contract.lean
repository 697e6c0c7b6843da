import Perigee.AccessControl.Selector
import Perigee.Soroban.Index
import Perigee.Soroban.Run

/-!
# Access control lists

Selectors are granted to addresses directly or through roles, by a root admin and the admins of the
roles.  The file follows `contracts/access_control/src/lib.rs`; the published events are kept in the
state.  Of the queries only `has_permission` is modelled; the others read one key.
-/

namespace AccessControl

open Soroban

structure AclConfig where
  maxBatchSize : ℕ
  maxGrantsPerAddress : ℕ
  maxRoles : ℕ
  maxPermissionsPerRole : ℕ
  maxMembersPerRole : ℕ
  maxRolesPerAddress : ℕ
  maxWildcards : ℕ
  deriving DecidableEq

def AclConfig.defaultConfig : AclConfig where
  maxBatchSize := 32
  maxGrantsPerAddress := 64
  maxRoles := 32
  maxPermissionsPerRole := 32
  maxMembersPerRole := 64
  maxRolesPerAddress := 8
  maxWildcards := 8

structure GrantEntry (Address : Type) where
  target : Address
  selector : Str

inductive Event (Address : Type) where
  | grant (actor target : Address) (selector : Str) (granted : Bool) (batchSize : ℕ)
  | rolePermission (actor : Address) (role selector : Str) (granted : Bool) (batchSize : ℕ)
  | roleMember (actor : Address) (role : Str) (member : Address) (granted : Bool) (batchSize : ℕ)
  | roleCreated (actor : Address) (role : Str) (admin : Address)
  | roleAdmin (actor : Address) (role : Str) (admin : Address)
  | roleDestroyed (actor : Address) (role : Str) (membersDetached permissionsDetached : ℕ)
  | wildcard (actor : Address) (pattern : Str) (registered : Bool)
  | adminTransferred (actor previousAdmin newAdmin : Address)
  | lockdown (actor : Address) (active : Bool)
  | config (actor : Address) (config : AclConfig)

structure World (Address : Type) where
  admin : Option Address := none
  config : Option AclConfig := none
  lockdown : Option Bool := none
  grant : Store (Address × Str) Bool := ∅
  grants : Store Address (List Str) := ∅
  roleMember : Store (Str × Address) Bool := ∅
  members : Store Str (List Address) := ∅
  roles : Store Address (List Str) := ∅
  rolePermission : Store (Str × Str) Bool := ∅
  permissions : Store Str (List Str) := ∅
  roleAdmin : Store Str Address := ∅
  roleList : Store Unit (List Str) := ∅
  protocolRolesConfigured : Option Bool := none
  wildcards : Store Unit (List Str) := ∅
  wildcardUse : Store Str ℕ := ∅
  events : List (Event Address) := []

structure Host (Address : Type) where
  auth : Address → Bool

variable {Address : Type}

def requireAuth (host : Host Address) (who : Address) : Outcome Error Unit :=
  ensure (host.auth who = true)

def emit (event : Event Address) (w : World Address) : World Address :=
  { w with events := w.events ++ [event] }

def emitIf (changed : Bool) (event : Event Address) (w : World Address) : World Address :=
  if changed then emit event w else w

/-! ## Storage helpers -/

variable (w : World Address)

def readAdmin : Outcome Error Address := okOr w.admin .notInitialized

def readConfig : Outcome Error AclConfig := okOr w.config .notInitialized

def isLocked : Bool := w.lockdown.getD false

def requireWritable : Outcome Error Unit :=
  reject (isLocked w = true) .locked

def wildcardUse (stem : Str) : ℕ := w.wildcardUse.getD stem 0

/-- The new count is cast from `i64` to `u32`, which drops its upper bits. -/
def bumpWildcardUse (stem : Str) (delta : ℤ) (w : World Address) : World Address :=
  let current : ℤ := wildcardUse w stem
  let next := (max (current + delta) 0 % 2 ^ 32).toNat
  if next = 0 then { w with wildcardUse := w.wildcardUse.remove stem }
  else { w with wildcardUse := w.wildcardUse.set stem next }

def wildcardPrefixes : List Str := w.wildcards.readList ()

def roleExists (role : Str) : Bool := w.roleAdmin.has role

/-! ## Validation -/

def checkBatchSize (len : ℕ) : Outcome Error Unit := do
  reject (len = 0) .emptyBatch
  let config ← readConfig w
  reject (config.maxBatchSize < len) .batchTooLarge

def validateRole (role : Str) : Outcome Error Unit := do
  reject (role.isEmpty = true ∨ maxSelectorLen < role.length) .invalidRole
  reject (star ∈ role) .invalidRole

def requireRegistered : SelectorKind → Outcome Error Unit
  | .namespaced stem => reject (stem ∉ wildcardPrefixes w) .unregisteredWildcard
  | _ => pure ()

def validateGrantable (sel : Str) : Outcome Error SelectorKind := do
  let kind ← classify sel
  requireRegistered w kind
  pure kind

def trackWildcardUse (sel : Str) (delta : ℤ) (w : World Address) : World Address :=
  match classify sel with
  | .ok (.namespaced stem) => bumpWildcardUse stem delta w
  | _ => w

variable [DecidableEq Address]

def isRoot (who : Address) : Bool := w.admin = some who

def requireRoot (host : Host Address) (w : World Address) (who : Address) : Outcome Error Unit := do
  reject (¬ isRoot w who = true) .unauthorized
  requireAuth host who

def requireRoleAdmin (host : Host Address) (w : World Address) (who : Address) (role : Str) :
    Outcome Error Unit :=
  if isRoot w who then requireAuth host who
  else
    match w.roleAdmin.lookup role with
    | some admin => if admin = who then requireAuth host who else .error (.err .unauthorized)
    | none => .error (.err .unauthorized)

/-! ## Permission matching -/

def directMatches (who : Address) (sel : Str) : Bool :=
  w.grant.has (who, sel) || w.grant.has (who, wildcard) ||
    (wildcardPrefixes w).any fun stem => isPrefix stem sel && w.grant.has (who, pattern stem)

def roleMatches (role sel : Str) : Bool :=
  w.rolePermission.has (role, sel) || w.rolePermission.has (role, wildcard) ||
    (wildcardPrefixes w).any fun stem =>
      isPrefix stem sel && w.rolePermission.has (role, pattern stem)

def permits (caller : Address) (sel : Str) : Bool :=
  if isRoot w caller then true
  else
    match classify sel with
    | .error _ => false
    | .ok _ =>
      directMatches w caller sel ||
        (w.roles.readList caller).any fun role => roleMatches w role sel

/-! ## Mutation primitives -/

/-- What `apply_grant` writes. -/
def storeGrant (target : Address) (sel : Str) (w : World Address) : World Address :=
  trackWildcardUse sel 1 { w with
    grant := w.grant.set (target, sel) true
    grants := w.grants.writeList target (w.grants.readList target ++ [sel]) }

def applyGrant (target : Address) (sel : Str) (w : World Address) :
    Outcome Error (Bool × World Address) :=
  if w.grant.has (target, sel) then pure (false, w)
  else do
    let _ ← validateGrantable w sel
    let config ← readConfig w
    reject (config.maxGrantsPerAddress ≤ (w.grants.readList target).length) .limitExceeded
    pure (true, storeGrant target sel w)

def dropGrant (target : Address) (sel : Str) (w : World Address) : World Address :=
  trackWildcardUse sel (-1) { w with
    grant := w.grant.remove (target, sel)
    grants := w.grants.writeList target ((w.grants.readList target).filter (· ≠ sel)) }

def applyRevoke (target : Address) (sel : Str) (w : World Address) : Bool × World Address :=
  if w.grant.has (target, sel) then (true, dropGrant target sel w) else (false, w)

section Permissions

omit [DecidableEq Address]

def storeRolePermission (role sel : Str) (w : World Address) : World Address :=
  trackWildcardUse sel 1 { w with
    rolePermission := w.rolePermission.set (role, sel) true
    permissions := w.permissions.writeList role (w.permissions.readList role ++ [sel]) }

def applyRolePermission (role sel : Str) (w : World Address) :
    Outcome Error (Bool × World Address) :=
  if w.rolePermission.has (role, sel) then pure (false, w)
  else do
    let _ ← validateGrantable w sel
    let config ← readConfig w
    reject (config.maxPermissionsPerRole ≤ (w.permissions.readList role).length) .limitExceeded
    pure (true, storeRolePermission role sel w)

def dropRolePermission (role sel : Str) (w : World Address) : World Address :=
  trackWildcardUse sel (-1) { w with
    rolePermission := w.rolePermission.remove (role, sel)
    permissions := w.permissions.writeList role ((w.permissions.readList role).filter (· ≠ sel)) }

def applyRoleRevoke (role sel : Str) (w : World Address) : Bool × World Address :=
  if w.rolePermission.has (role, sel) then (true, dropRolePermission role sel w) else (false, w)

end Permissions

def storeRoleMember (role : Str) (member : Address) (w : World Address) : World Address :=
  { w with
    roleMember := w.roleMember.set (role, member) true
    members := w.members.writeList role (w.members.readList role ++ [member])
    roles := w.roles.writeList member (w.roles.readList member ++ [role]) }

def applyRoleMember (role : Str) (member : Address) (w : World Address) :
    Outcome Error (Bool × World Address) :=
  if w.roleMember.has (role, member) then pure (false, w)
  else do
    let config ← readConfig w
    reject (config.maxMembersPerRole ≤ (w.members.readList role).length) .limitExceeded
    reject (config.maxRolesPerAddress ≤ (w.roles.readList member).length) .limitExceeded
    pure (true, storeRoleMember role member w)

def dropRoleMember (role : Str) (member : Address) (w : World Address) : World Address :=
  { w with
    roleMember := w.roleMember.remove (role, member)
    members := w.members.writeList role ((w.members.readList role).filter (· ≠ member))
    roles := w.roles.writeList member ((w.roles.readList member).filter (· ≠ role)) }

def applyRoleMemberRevoke (role : Str) (member : Address) (w : World Address) :
    Bool × World Address :=
  if w.roleMember.has (role, member) then (true, dropRoleMember role member w) else (false, w)

section Roles

omit [DecidableEq Address]

def storeRole (role : Str) (admin : Address) (w : World Address) : World Address :=
  { w with
    roleAdmin := w.roleAdmin.set role admin
    roleList := w.roleList.writeList () (w.roleList.readList () ++ [role]) }

def checkNewRole (role : Str) (w : World Address) : Outcome Error Unit := do
  validateRole role
  reject (roleExists w role = true) .roleExists
  let config ← readConfig w
  reject (config.maxRoles ≤ (w.roleList.readList ()).length) .limitExceeded

/-- A role without members and permissions is forgotten. -/
def dropRole (role : Str) (w : World Address) : World Address :=
  { w with
    roleAdmin := w.roleAdmin.remove role
    roleList := w.roleList.writeList () ((w.roleList.readList ()).filter (· ≠ role)) }

/-! ## Loops -/

/-- Attach every selector to the role, with an event for each new one. -/
def attachEach (actor : Address) (role : Str) (size : ℕ) :
    List Str → World Address → Outcome Error (World Address)
  | [], w => pure w
  | sel :: rest, w => do
    let (added, w) ← applyRolePermission role sel w
    attachEach actor role size rest (emitIf added (.rolePermission actor role sel true size) w)

/-- Detach the role's selectors that are not among the new ones. -/
def detachOthers (actor : Address) (role : Str) (selectors : List Str) (size : ℕ) :
    List Str → World Address → World Address
  | [], w => w
  | sel :: rest, w =>
    if sel ∈ selectors then detachOthers actor role selectors size rest w
    else
      let (removed, w) := applyRoleRevoke role sel w
      detachOthers actor role selectors size rest
        (emitIf removed (.rolePermission actor role sel false size) w)

def detachEach (role : Str) : List Str → World Address → World Address
  | [], w => w
  | sel :: rest, w => detachEach role rest (applyRoleRevoke role sel w).2

end Roles

/-- Add every member to the role, with an event for each new one. -/
def joinEach (actor : Address) (role : Str) (size : ℕ) :
    List Address → World Address → Outcome Error (World Address)
  | [], w => pure w
  | member :: rest, w => do
    let (added, w) ← applyRoleMember role member w
    joinEach actor role size rest (emitIf added (.roleMember actor role member true size) w)

/-- Remove the role's members that are not among the new ones. -/
def leaveOthers (actor : Address) (role : Str) (members : List Address) (size : ℕ) :
    List Address → World Address → World Address
  | [], w => w
  | member :: rest, w =>
    if member ∈ members then leaveOthers actor role members size rest w
    else
      let (removed, w) := applyRoleMemberRevoke role member w
      leaveOthers actor role members size rest
        (emitIf removed (.roleMember actor role member false size) w)

def leaveEach (role : Str) : List Address → World Address → World Address
  | [], w => w
  | member :: rest, w => leaveEach role rest (applyRoleMemberRevoke role member w).2

def grantEach (actor : Address) (size : ℕ) :
    List (GrantEntry Address) → ℕ → World Address → Outcome Error (ℕ × World Address)
  | [], applied, w => pure (applied, w)
  | entry :: rest, applied, w => do
    let (added, w) ← applyGrant entry.target entry.selector w
    let applied ← u32 (if added then applied + 1 else applied)
    grantEach actor size rest applied
      (emitIf added (.grant actor entry.target entry.selector true size) w)

def revokeEach (actor : Address) (size : ℕ) :
    List (GrantEntry Address) → ℕ → World Address → Outcome Error (ℕ × World Address)
  | [], applied, w => pure (applied, w)
  | entry :: rest, applied, w => do
    let (removed, w) := applyRevoke entry.target entry.selector w
    let applied ← u32 (if removed then applied + 1 else applied)
    revokeEach actor size rest applied
      (emitIf removed (.grant actor entry.target entry.selector false size) w)

/-- The loop of `renounce_all` over the grants, in which events carry the running count. -/
def renounceGrants (caller : Address) :
    List Str → ℕ → World Address → Outcome Error (ℕ × World Address)
  | [], count, w => pure (count, w)
  | sel :: rest, count, w => do
    let (removed, w) := applyRevoke caller sel w
    let count ← u32 (if removed then count + 1 else count)
    renounceGrants caller rest count (emitIf removed (.grant caller caller sel false count) w)

def renounceRoles (caller : Address) :
    List Str → ℕ → World Address → Outcome Error (ℕ × World Address)
  | [], count, w => pure (count, w)
  | role :: rest, count, w => do
    let (removed, w) := applyRoleMemberRevoke role caller w
    let count ← u32 (if removed then count + 1 else count)
    renounceRoles caller rest count (emitIf removed (.roleMember caller role caller false count) w)

/-! ## Protocol roles -/

inductive ProtocolRole where
  | owner
  | admin
  | strategist
  | keeper
  | emergency

def ascii (s : String) : Str := s.toList.map fun c => UInt8.ofNat c.toNat

def ProtocolRole.name : ProtocolRole → Str
  | .owner => ascii "owner"
  | .admin => ascii "admin"
  | .strategist => ascii "strategist"
  | .keeper => ascii "keeper"
  | .emergency => ascii "emergency"

def protocolRolePermissions : ProtocolRole → List Str
  | .owner => ["vault.deposit", "vault.withdraw", "vault.transfer", "vault.configure"].map ascii
  | .admin => ["roles.manage", "vault.pause", "vault.unpause", "strategy.configure",
      "strategy.approve", "fees.configure", "keeper.configure", "emergency.pause"].map ascii
  | .strategist => ["strategy.rebalance", "strategy.rotate", "strategy.harvest"].map ascii
  | .keeper => ["strategy.harvest", "strategy.rebalance", "oracle.update"].map ascii
  | .emergency => ["emergency.pause", "emergency.cancel", "vault.pause", "strategy.pause"].map ascii

def provisionProtocolRole (actor : Address) (role : ProtocolRole) (member : Address)
    (w : World Address) : Outcome Error (World Address) := do
  let name := role.name
  checkNewRole name w
  let w := emit (.roleCreated actor name actor) (storeRole name actor w)
  let w ← attachEach actor name 1 (protocolRolePermissions role) w
  joinEach actor name 1 [member] w

/-! ## Entry points -/

inductive Reply where
  | unit
  | flag (b : Bool)
  | count (n : ℕ)
  deriving DecidableEq

section EntryPoints

variable (host : Host Address)

def initializeAcl (admin : Address) (config : AclConfig) (w : World Address) :
    Outcome Error (World Address) := do
  reject (w.admin.isSome = true) .alreadyInitialized
  reject (config.maxBatchSize = 0 ∨ config.maxWildcards = 0) .limitExceeded
  requireAuth host admin
  pure (emit (.config admin config)
    { w with admin := some admin, config := some config, lockdown := some false })

def setupProtocolRoles (actor owner admin strategist keeper emergency : Address)
    (w : World Address) : Outcome Error (World Address) := do
  requireRoot host w actor
  requireWritable w
  reject (w.protocolRolesConfigured.getD false = true) .protocolRolesAlreadyConfigured
  let w ← provisionProtocolRole actor .owner owner w
  let w ← provisionProtocolRole actor .admin admin w
  let w ← provisionProtocolRole actor .strategist strategist w
  let w ← provisionProtocolRole actor .keeper keeper w
  let w ← provisionProtocolRole actor .emergency emergency w
  pure { w with protocolRolesConfigured := some true }

def transferAdmin (actor newAdmin : Address) (w : World Address) :
    Outcome Error (World Address) := do
  let previous ← readAdmin w
  requireRoot host w actor
  pure (emit (.adminTransferred actor previous newAdmin) { w with admin := some newAdmin })

variable (actor : Address)

def setConfig (config : AclConfig) (w : World Address) : Outcome Error (World Address) := do
  requireRoot host w actor
  requireWritable w
  reject (config.maxBatchSize = 0 ∨ config.maxWildcards = 0) .limitExceeded
  pure (emit (.config actor config) { w with config := some config })

def setLockdown (active : Bool) (w : World Address) : Outcome Error (World Address) := do
  requireRoot host w actor
  pure (emit (.lockdown actor active) { w with lockdown := some active })

def grant (actor caller : Address) (sel : Str) (w : World Address) :
    Outcome Error (Bool × World Address) := do
  requireRoot host w actor
  requireWritable w
  let (added, w) ← applyGrant caller sel w
  pure (added, emitIf added (.grant actor caller sel true 1) w)

def revoke (actor caller : Address) (sel : Str) (w : World Address) :
    Outcome Error (Bool × World Address) := do
  requireRoot host w actor
  requireWritable w
  let (removed, w) := applyRevoke caller sel w
  pure (removed, emitIf removed (.grant actor caller sel false 1) w)

def batchGrant (entries : List (GrantEntry Address)) (w : World Address) :
    Outcome Error (ℕ × World Address) := do
  requireRoot host w actor
  requireWritable w
  checkBatchSize w entries.length
  grantEach actor entries.length entries 0 w

def batchRevoke (entries : List (GrantEntry Address)) (w : World Address) :
    Outcome Error (ℕ × World Address) := do
  requireRoot host w actor
  requireWritable w
  checkBatchSize w entries.length
  revokeEach actor entries.length entries 0 w

def renounce (caller : Address) (sel : Str) (w : World Address) :
    Outcome Error (Bool × World Address) := do
  requireAuth host caller
  let (removed, w) := applyRevoke caller sel w
  pure (removed, emitIf removed (.grant caller caller sel false 1) w)

def renounceAll (caller : Address) (w : World Address) : Outcome Error (ℕ × World Address) := do
  requireAuth host caller
  let (count, w) ← renounceGrants caller (w.grants.readList caller) 0 w
  renounceRoles caller (w.roles.readList caller) count w

def createRole (role : Str) (roleAdmin : Address) (w : World Address) :
    Outcome Error (World Address) := do
  requireRoot host w actor
  requireWritable w
  checkNewRole role w
  pure (emit (.roleCreated actor role roleAdmin) (storeRole role roleAdmin w))

def setRoleAdmin (role : Str) (newAdmin : Address) (w : World Address) :
    Outcome Error (World Address) := do
  requireRoot host w actor
  requireWritable w
  reject (¬ roleExists w role = true) .roleNotFound
  pure (emit (.roleAdmin actor role newAdmin) { w with roleAdmin := w.roleAdmin.set role newAdmin })

/-- What the entry points for the admin of a role check first. -/
def manageRole (role : Str) (w : World Address) : Outcome Error Unit := do
  reject (¬ roleExists w role = true) .roleNotFound
  requireRoleAdmin host w actor role
  requireWritable w

def grantRolePermission (role sel : Str) (w : World Address) :
    Outcome Error (Bool × World Address) := do
  manageRole host actor role w
  let (added, w) ← applyRolePermission role sel w
  pure (added, emitIf added (.rolePermission actor role sel true 1) w)

def revokeRolePermission (role sel : Str) (w : World Address) :
    Outcome Error (Bool × World Address) := do
  manageRole host actor role w
  let (removed, w) := applyRoleRevoke role sel w
  pure (removed, emitIf removed (.rolePermission actor role sel false 1) w)

def grantRole (role : Str) (member : Address) (w : World Address) :
    Outcome Error (Bool × World Address) := do
  manageRole host actor role w
  let (added, w) ← applyRoleMember role member w
  pure (added, emitIf added (.roleMember actor role member true 1) w)

def revokeRole (role : Str) (member : Address) (w : World Address) :
    Outcome Error (Bool × World Address) := do
  manageRole host actor role w
  let (removed, w) := applyRoleMemberRevoke role member w
  pure (removed, emitIf removed (.roleMember actor role member false 1) w)

def renounceRole (caller : Address) (role : Str) (w : World Address) :
    Outcome Error (Bool × World Address) := do
  requireAuth host caller
  let (removed, w) := applyRoleMemberRevoke role caller w
  pure (removed, emitIf removed (.roleMember caller role caller false 1) w)

def destroyRole (role : Str) (w : World Address) : Outcome Error (ℕ × World Address) := do
  requireRoot host w actor
  requireWritable w
  reject (¬ roleExists w role = true) .roleNotFound
  let permissions := w.permissions.readList role
  let members := w.members.readList role
  let w := detachEach role permissions w
  let w := leaveEach role members w
  let w := dropRole role w
  let w := emit (.roleDestroyed actor role members.length permissions.length) w
  let count ← u32 (members.length + permissions.length)
  pure (count, w)

def batchSetMembers (role : Str) (members : List Address) (w : World Address) :
    Outcome Error (ℕ × World Address) := do
  manageRole host actor role w
  let size := members.length
  checkBatchSize w size
  let current := w.members.readList role
  let w := leaveOthers actor role members size current w
  let w ← joinEach actor role size members w
  pure (members.length, w)

def batchSetPermissions (role : Str) (selectors : List Str) (w : World Address) :
    Outcome Error (ℕ × World Address) := do
  manageRole host actor role w
  let size := selectors.length
  checkBatchSize w size
  let current := w.permissions.readList role
  let w := detachOthers actor role selectors size current w
  let w ← attachEach actor role size selectors w
  pure (selectors.length, w)

/-- The prefix of a namespace wildcard; no other selector is accepted. -/
def namespacePrefix (pattern : Str) : Outcome Error Str :=
  match classify pattern with
  | .ok (.namespaced stem) => .ok stem
  | .ok _ => .error (.err .invalidSelector)
  | .error fault => .error fault

def registerWildcard (pattern : Str) (w : World Address) :
    Outcome Error (Bool × World Address) := do
  requireRoot host w actor
  requireWritable w
  let stem ← namespacePrefix pattern
  let registered := wildcardPrefixes w
  if stem ∈ registered then pure (false, w)
  else do
    let config ← readConfig w
    reject (config.maxWildcards ≤ registered.length) .limitExceeded
    let w := { w with wildcards := w.wildcards.writeList () (registered ++ [stem]) }
    pure (true, emit (.wildcard actor pattern true) w)

def unregisterWildcard (pattern : Str) (w : World Address) :
    Outcome Error (Bool × World Address) := do
  requireRoot host w actor
  requireWritable w
  let stem ← namespacePrefix pattern
  let registered := wildcardPrefixes w
  reject (stem ∉ registered) .wildcardNotFound
  reject (0 < wildcardUse w stem) .wildcardInUse
  let w := { w with wildcards := w.wildcards.writeList () (registered.filter (· ≠ stem)) }
  pure (true, emit (.wildcard actor pattern false) w)

end EntryPoints

/-! ## The system -/

inductive Call (Address : Type) where
  | initializeAcl (admin : Address) (config : AclConfig)
  | setupProtocolRoles (actor owner admin strategist keeper emergency : Address)
  | transferAdmin (actor newAdmin : Address)
  | setConfig (actor : Address) (config : AclConfig)
  | setLockdown (actor : Address) (active : Bool)
  | grant (actor caller : Address) (sel : Str)
  | revoke (actor caller : Address) (sel : Str)
  | batchGrant (actor : Address) (entries : List (GrantEntry Address))
  | batchRevoke (actor : Address) (entries : List (GrantEntry Address))
  | renounce (caller : Address) (sel : Str)
  | renounceAll (caller : Address)
  | createRole (actor : Address) (role : Str) (roleAdmin : Address)
  | setRoleAdmin (actor : Address) (role : Str) (newAdmin : Address)
  | grantRolePermission (actor : Address) (role sel : Str)
  | revokeRolePermission (actor : Address) (role sel : Str)
  | grantRole (actor : Address) (role : Str) (member : Address)
  | revokeRole (actor : Address) (role : Str) (member : Address)
  | renounceRole (caller : Address) (role : Str)
  | destroyRole (actor : Address) (role : Str)
  | batchSetMembers (actor : Address) (role : Str) (members : List Address)
  | batchSetPermissions (actor : Address) (role : Str) (selectors : List Str)
  | registerWildcard (actor : Address) (pattern : Str)
  | unregisterWildcard (actor : Address) (pattern : Str)

/-- The reply of an entry point that returns nothing, a flag or a count. -/
def replyUnit (r : Outcome Error (World Address)) : Outcome Error (Reply × World Address) :=
  (fun w => (.unit, w)) <$> r

def replyFlag (r : Outcome Error (Bool × World Address)) : Outcome Error (Reply × World Address) :=
  (fun r => (.flag r.1, r.2)) <$> r

def replyCount (r : Outcome Error (ℕ × World Address)) : Outcome Error (Reply × World Address) :=
  (fun r => (.count r.1, r.2)) <$> r

def exec (host : Host Address) (w : World Address) :
    Call Address → Outcome Error (Reply × World Address)
  | .initializeAcl admin config => replyUnit (initializeAcl host admin config w)
  | .setupProtocolRoles actor owner admin strategist keeper emergency =>
    replyUnit (setupProtocolRoles host actor owner admin strategist keeper emergency w)
  | .transferAdmin actor newAdmin => replyUnit (transferAdmin host actor newAdmin w)
  | .setConfig actor config => replyUnit (setConfig host actor config w)
  | .setLockdown actor active => replyUnit (setLockdown host actor active w)
  | .grant actor caller sel => replyFlag (grant host actor caller sel w)
  | .revoke actor caller sel => replyFlag (revoke host actor caller sel w)
  | .batchGrant actor entries => replyCount (batchGrant host actor entries w)
  | .batchRevoke actor entries => replyCount (batchRevoke host actor entries w)
  | .renounce caller sel => replyFlag (renounce host caller sel w)
  | .renounceAll caller => replyCount (renounceAll host caller w)
  | .createRole actor role roleAdmin => replyUnit (createRole host actor role roleAdmin w)
  | .setRoleAdmin actor role newAdmin => replyUnit (setRoleAdmin host actor role newAdmin w)
  | .grantRolePermission actor role sel => replyFlag (grantRolePermission host actor role sel w)
  | .revokeRolePermission actor role sel => replyFlag (revokeRolePermission host actor role sel w)
  | .grantRole actor role member => replyFlag (grantRole host actor role member w)
  | .revokeRole actor role member => replyFlag (revokeRole host actor role member w)
  | .renounceRole caller role => replyFlag (renounceRole host caller role w)
  | .destroyRole actor role => replyCount (destroyRole host actor role w)
  | .batchSetMembers actor role members => replyCount (batchSetMembers host actor role members w)
  | .batchSetPermissions actor role selectors =>
    replyCount (batchSetPermissions host actor role selectors w)
  | .registerWildcard actor pattern => replyFlag (registerWildcard host actor pattern w)
  | .unregisterWildcard actor pattern => replyFlag (unregisterWildcard host actor pattern w)

structure Action (Address : Type) where
  host : Host Address
  call : Call Address

def perform (w : World Address) (action : Action Address) : Outcome Error (World Address) :=
  Prod.snd <$> exec action.host w action.call

def Step (w : World Address) (action : Action Address) (w' : World Address) : Prop :=
  perform w action = .ok w'

end AccessControl
