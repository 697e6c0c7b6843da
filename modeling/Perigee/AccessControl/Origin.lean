import Perigee.AccessControl.Decision
import Perigee.Soroban.History

/-!
# Where permissions come from

Whatever a non-root address is permitted goes back to calls of the run: a selector was granted to it
by the root admin of that moment, or the root admin or the admin of one of its roles attached the
selector to the role and added the address.
-/

namespace AccessControl

open Soroban

variable {Address : Type} [DecidableEq Address] {w : World Address}
  {actions : List (Action Address)} {role p : Str} {a : Address}

/-! ## Authority -/

/-- The root admin of that moment grants the selector to the address. -/
def GrantedByRoot (a : Address) (p : Str) (_ : List (Action Address)) (w : World Address)
    (action : Action Address) : Prop :=
  ByRoot action.host w action.call.actor ∧ (a, p) ∈ action.call.granted

/-- The root admin of that moment makes the address the admin of the role. -/
def AppointedByRoot (role : Str) (a : Address) (_ : List (Action Address)) (w : World Address)
    (action : Action Address) : Prop :=
  ByRoot action.host w action.call.actor ∧ (role, a) ∈ action.call.appointed

/-- The call is authorized by the root admin of that moment, or by the admin of the role, whom a
root admin has appointed before. -/
def Empowered (role : Str) (before : List (Action Address)) (w : World Address)
    (action : Action Address) : Prop :=
  ByRoot action.host w action.call.actor ∨
    action.host.auth action.call.actor = true ∧
      w.roleAdmin.lookup role = some action.call.actor ∧
      Happened Step {} (AppointedByRoot role action.call.actor) before w

def Attached (role p : Str) (before : List (Action Address)) (w : World Address)
    (action : Action Address) : Prop :=
  Empowered role before w action ∧ (role, p) ∈ action.call.attached

def Joined (role : Str) (a : Address) (before : List (Action Address)) (w : World Address)
    (action : Action Address) : Prop :=
  Empowered role before w action ∧ (role, a) ∈ action.call.joined

/-- The selector came to the address in the run. -/
def Origin (a : Address) (p : Str) (actions : List (Action Address)) (w : World Address) : Prop :=
  Happened Step {} (GrantedByRoot a p) actions w ∨
    ∃ role, a ∈ w.members.readList role ∧ Happened Step {} (Joined role a) actions w ∧
      Happened Step {} (Attached role p) actions w

/-! ## Tracing back -/

theorem admin_appointed (run : Run Step {} actions w) (stored : w.roleAdmin.lookup role = some a) :
    Happened Step {} (AppointedByRoot role a) actions w := by
  refine run.happened (F := fun w => w.roleAdmin.lookup role = some a) (by simp) ?_ stored
  intro _ _ _ _ run step stored
  exact step_roleAdmin (founded_run run) step stored

theorem empowered_of_byAdmin {action : Action Address} (run : Run Step {} actions w)
    (admin : ByAdmin action.host w action.call.actor role) : Empowered role actions w action := by
  obtain ⟨auth, root | stored⟩ := admin
  · exact .inl ⟨root, auth⟩
  · exact .inr ⟨auth, stored, admin_appointed run stored⟩

theorem grant_happened (run : Run Step {} actions w) (stored : w.grant.has (a, p) = true) :
    Happened Step {} (GrantedByRoot a p) actions w := by
  refine run.happened (F := fun w => w.grant.has (a, p) = true) (by simp) ?_ stored
  intro _ _ _ _ run step stored
  exact step_grant (founded_run run) step stored

theorem attach_happened (run : Run Step {} actions w)
    (stored : w.rolePermission.has (role, p) = true) :
    Happened Step {} (Attached role p) actions w := by
  refine run.happened (F := fun w => w.rolePermission.has (role, p) = true) (by simp) ?_ stored
  intro _ _ _ _ run step stored
  rcases step_rolePermission (founded_run run) step stored with stored | ⟨admin, listed⟩
  · exact .inl stored
  · exact .inr ⟨empowered_of_byAdmin run admin, listed⟩

theorem join_happened (run : Run Step {} actions w) (stored : w.roleMember.has (role, a) = true) :
    Happened Step {} (Joined role a) actions w := by
  refine run.happened (F := fun w => w.roleMember.has (role, a) = true) (by simp) ?_ stored
  intro _ _ _ _ run step stored
  rcases step_roleMember (founded_run run) step stored with stored | ⟨admin, listed⟩
  · exact .inl stored
  · exact .inr ⟨empowered_of_byAdmin run admin, listed⟩

/-- **No escalation**: if an address other than the root admin is permitted a selector after a run,
a selector that covers it was granted to the address by the root admin of that moment, or attached
to one of its roles, and the address added to the role, by the root admin or by the role's admin of
that moment, whom a root admin had appointed. -/
theorem no_escalation {a : Address} {sel : Str} (run : Run Step {} actions w)
    (other : isRoot w a = false) (permitted : permits w a sel = true) :
    ∃ p, Covers p sel ∧ Origin a p actions w := by
  have indexed := (founded_run run).toIndexed
  rcases indexed.allowed_of_permits permitted with root | ⟨_, p, holds, covers⟩
  · rw [other] at root
    cases root
  · refine ⟨p, covers, ?_⟩
    rcases holds with granted | ⟨role, member, attached⟩
    · exact .inl (grant_happened run granted)
    · exact .inr ⟨role, member, join_happened run (((indexed.members role).2 a).1 member),
        attach_happened run attached⟩

theorem grantedAndAttached_originates :
    ∃ w : World ℕ, Run Step {} grantedAndAttached w ∧ isRoot w 3 = false ∧
      ∃ p, Covers p (ascii "abc") ∧ Origin 3 p grantedAndAttached w := by
  obtain ⟨w, run, other, permitted⟩ : ∃ w : World ℕ, Run Step {} grantedAndAttached w ∧
      isRoot w 3 = false ∧ permits w 3 (ascii "abc") = true :=
    exists_run (fun _ _ _ => id) (by decide +kernel)
  exact ⟨w, run, other, no_escalation run other permitted⟩

/-! ## A role admin on its own -/

def roleHandedOver : List (Action ℕ) :=
  [⟨⟨fun a => a = 0⟩, .initializeAcl 0 .defaultConfig⟩,
    ⟨⟨fun a => a = 0⟩, .createRole 0 (ascii "r") 1⟩]

/-- The admin attaches the universal wildcard to the role and joins it. -/
def selfServed : List (Action ℕ) :=
  roleHandedOver ++ [⟨⟨fun a => a = 1⟩, .grantRolePermission 1 (ascii "r") wildcard⟩,
    ⟨⟨fun a => a = 1⟩, .grantRole 1 (ascii "r") 1⟩]

def AttachedByRoot (p : Str) (_ : List (Action ℕ)) (w : World ℕ) (action : Action ℕ) : Prop :=
  ByRoot action.host w action.call.actor ∧ ∃ role, (role, p) ∈ action.call.attached

/-- The admin of a role is permitted everything, though no root admin has granted or attached any
selector. -/
theorem role_admin_serves_itself :
    ∃ w : World ℕ, Run Step {} selfServed w ∧ isRoot w 1 = false ∧
      permits w 1 (ascii "vault.withdraw") = true ∧
      ∀ p, ¬ Happened Step {} (GrantedByRoot 1 p) selfServed w ∧
        ¬ Happened Step {} (AttachedByRoot p) selfServed w := by
  obtain ⟨w, h, other, permitted⟩ : ∃ w, selfServed.foldlM perform {} = .ok w ∧
      isRoot w 1 = false ∧ permits w 1 (ascii "vault.withdraw") = true := by
    decide +kernel
  obtain ⟨u, handed, notYet⟩ : ∃ u, roleHandedOver.foldlM perform {} = .ok u ∧
      isRoot u 1 = false := by
    decide +kernel
  refine ⟨w, Run.of_foldlM (fun _ _ _ => id) h, other, permitted, fun p => ⟨?_, ?_⟩⟩
  · rintro ⟨before, action, after, _, _, eq, -, -, -, -, listed⟩
    have there : action ∈ selfServed := by
      rw [eq]
      exact List.mem_append_right _ List.mem_cons_self
    simp only [selfServed, roleHandedOver, List.cons_append, List.nil_append, List.mem_cons,
      List.not_mem_nil, or_false] at there
    rcases there with rfl | rfl | rfl | rfl <;> cases listed
  · rintro ⟨before, action, after, w₁, _, eq, run, -, -, root, _, listed⟩
    simp only [selfServed, roleHandedOver, List.cons_append, List.nil_append] at eq
    -- only the third call attaches a selector, and there the root admin is still 0
    rcases before with _ | ⟨_, _ | ⟨_, _ | ⟨_, _ | _⟩⟩⟩ <;>
      simp only [List.nil_append, List.cons_append, List.cons.injEq, List.nil_eq,
        List.append_eq_nil_iff, reduceCtorEq, and_false] at eq
    · obtain ⟨rfl, -⟩ := eq
      cases listed
    · obtain ⟨-, rfl, -⟩ := eq
      cases listed
    · obtain ⟨rfl, rfl, rfl, -⟩ := eq
      have done : roleHandedOver.foldlM perform {} = .ok w₁ := Run.foldlM_eq run
      obtain rfl := Except.ok.inj (handed.symm.trans done)
      rw [show isRoot u 1 = true from root.1] at notYet
      cases notYet
    · obtain ⟨-, -, -, rfl, -⟩ := eq
      cases listed

end AccessControl
