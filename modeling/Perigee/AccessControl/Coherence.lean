import Perigee.AccessControl.Calls

/-!
# Coherence of the tables

The index lists agree with the flags after every run (`Indexed`).  The count of references to a
namespace wildcard is a `u32` that is cast from a sum, so it is exact only while there are fewer
than `2 ^ 32` of them.
-/

namespace AccessControl

open Soroban

variable {Address : Type} [DecidableEq Address] {w w' : World Address}

/-! ## References to a selector -/

section Refs

variable {K : Type} [DecidableEq K] {stored : Store (K × Str) Bool} {key : K × Str} {sel : Str}

def refs (stored : Store (K × Str) Bool) (sel : Str) : ℕ :=
  (stored.keys.filter (·.2 = sel)).length

omit [DecidableEq K] in
theorem refs_eq_sumBy (stored : Store (K × Str) Bool) (sel : Str) :
    refs stored sel = stored.sumBy fun key _ => if key.2 = sel then 1 else 0 := by
  unfold refs Store.sumBy AList.keys List.keys
  induction stored.entries with
  | nil => rfl
  | cons entry _ ih =>
    rw [List.map_cons, List.map_cons, List.sum_cons, List.filter_cons]
    dsimp only
    by_cases same : entry.1.2 = sel
    · rw [if_pos (by simpa using same), if_pos same, List.length_cons, ih, add_comm]
    · rw [if_neg (by simpa using same), if_neg same, ih, zero_add]

theorem refs_set (absent : stored.has key = false) (sel : Str) :
    refs (stored.set key true) sel = refs stored sel + if key.2 = sel then 1 else 0 := by
  have missing : stored.lookup key = none := by simpa [Store.has] using absent
  rw [refs_eq_sumBy, refs_eq_sumBy, Store.sumBy_set_fresh missing, add_comm]

theorem refs_remove (present : stored.has key = true) (sel : Str) :
    refs (stored.remove key) sel + (if key.2 = sel then 1 else 0) = refs stored sel := by
  obtain ⟨_, found⟩ := Option.isSome_iff_exists.1 present
  rw [refs_eq_sumBy, refs_eq_sumBy, Store.sumBy_eq_share_add_remove _ stored key, Store.share,
    found, Option.elim_some, add_comm]

theorem refs_pos {k : K} (present : stored.has (k, sel) = true) : 0 < refs stored sel := by
  rw [← refs_remove present sel, if_pos rfl]
  exact Nat.succ_pos _

theorem refs_le_of_listed {before after : Store (K × Str) Bool} (listed : List (K × Str))
    (sub : ∀ k, after.has (k, sel) = true → before.has (k, sel) = true ∨ (k, sel) ∈ listed) :
    refs after sel ≤ ((before.keys ++ listed).filter (·.2 = sel)).dedup.length := by
  refine (List.subperm_of_subset (after.nodupKeys.filter _) ?_).length_le
  rintro ⟨k, s⟩ there
  rw [List.mem_filter, decide_eq_true_eq] at there
  obtain ⟨key, rfl⟩ := there
  rw [List.mem_dedup, List.mem_filter, List.mem_append, decide_eq_true_eq]
  refine ⟨?_, rfl⟩
  rcases sub k (AList.lookup_isSome.2 key) with stored | there
  · exact .inl (AList.lookup_isSome.1 stored)
  · exact .inr there

end Refs

variable {e : Edit Address} {sel stem : Str} {before after : World Address}
  {action : Action Address} {actions : List (Action Address)}

/-- The direct grants and role permissions that are the pattern of the prefix. -/
def uses (w : World Address) (stem : Str) : ℕ :=
  refs w.grant (pattern stem) + refs w.rolePermission (pattern stem)

def Edit.adds (e : Edit Address) (stem : Str) : ℕ :=
  match e with
  | .grant _ sel | .attach _ sel => if sel = pattern stem then 1 else 0
  | _ => 0

def Edit.takes (e : Edit Address) (stem : Str) : ℕ :=
  match e with
  | .revoke _ sel | .detach _ sel => if sel = pattern stem then 1 else 0
  | _ => 0

theorem uses_edit (step : EditStep w e w') (stem : Str) :
    uses w' stem + e.takes stem = uses w stem + e.adds stem := by
  cases step with
  | grant absent | attach _ absent =>
    simp only [uses, storeGrant, storeRolePermission, trackWildcardUse_grant,
      trackWildcardUse_rolePermission, refs_set absent, Edit.takes, Edit.adds]
    omega
  | revoke present | detach present =>
    simp only [uses, dropGrant, dropRolePermission, trackWildcardUse_grant,
      trackWildcardUse_rolePermission, ← refs_remove present, Edit.takes, Edit.adds]
    omega
  | _ => rfl

omit [DecidableEq Address] in
theorem Edit.adds_eq_zero (h : e.raises = false) (stem : Str) : e.adds stem = 0 := by
  cases e <;> first | rfl | cases h

omit [DecidableEq Address] in
theorem Edit.takes_eq_zero (h : e.lowers = false) (stem : Str) : e.takes stem = 0 := by
  cases e <;> first | rfl | cases h

/-! ## The counts -/

/-- Fewer references to any namespace wildcard than a `u32` can count. -/
def Bounded (w : World Address) : Prop := ∀ stem, stem ≠ [] → uses w stem < 2 ^ 32

/-- The tables agree, the counts are exact, and every namespace wildcard in use is registered. -/
structure Coherent (w : World Address) : Prop extends Indexed w where
  tracks : ∀ stem, stem ≠ [] → wildcardUse w stem = uses w stem
  registered : ∀ stem, stem ≠ [] → 0 < uses w stem → stem ∈ wildcardPrefixes w

theorem Coherent.empty : Coherent ({} : World Address) where
  toIndexed := Indexed.empty
  tracks := fun _ _ => rfl
  registered := fun _ _ some => absurd some (Nat.lt_irrefl 0)

omit [DecidableEq Address] in
theorem wildcardUse_bump (stem other : Str) (delta : ℤ) (w : World Address) :
    wildcardUse (bumpWildcardUse stem delta w) other =
      if other = stem then (max (wildcardUse w stem + delta) 0 % 2 ^ 32).toNat
      else wildcardUse w other := by
  unfold bumpWildcardUse
  dsimp only
  split_ifs with zero same same
  · rw [zero, wildcardUse, Store.getD, Store.lookup_remove, if_pos same, Option.getD_none]
  · rw [wildcardUse, Store.getD, Store.lookup_remove, if_neg same]
    rfl
  · rw [wildcardUse, Store.getD_set, if_pos same]
  · rw [wildcardUse, Store.getD_set, if_neg same]
    rfl

omit [DecidableEq Address] in
theorem wildcardUse_track (formed : WellFormed sel) (bare : stem ≠ []) (delta : ℤ)
    (w : World Address) :
    wildcardUse (trackWildcardUse sel delta w) stem =
      if sel = pattern stem then (max (wildcardUse w stem + delta) 0 % 2 ^ 32).toNat
      else wildcardUse w stem := by
  unfold trackWildcardUse
  split
  · rename_i own classified
    obtain ⟨-, -, rfl⟩ := classify_namespaced_iff.1 classified
    rw [wildcardUse_bump]
    by_cases same : stem = own
    · rw [if_pos same, if_pos (by rw [same]), same]
    · rw [if_neg same, if_neg fun h => same (pattern_inj h).symm]
  · rename_i other
    rw [if_neg]
    rintro rfl
    exact other stem (classify_namespaced_iff.2 ⟨formed, bare, rfl⟩)

omit [DecidableEq Address] in
theorem tracks_change {delta moved : ℤ} (formed : WellFormed sel) (bare : stem ≠ [])
    (exact_count : wildcardUse before stem = uses w stem)
    (change : uses after stem = uses w stem + moved) (bound : uses after stem < 2 ^ 32)
    (own : moved = if sel = pattern stem then delta else 0) :
    wildcardUse (trackWildcardUse sel delta before) stem = uses after stem := by
  rw [wildcardUse_track formed bare, exact_count]
  split_ifs at own ⊢ <;> omega

theorem Coherent.tracks_edit (coherent : Coherent w) (bounded : Bounded w') (step : EditStep w e w')
    (bare : stem ≠ []) : wildcardUse w' stem = uses w' stem := by
  have change : (uses w' stem : ℤ) = uses w stem + (e.adds stem - e.takes stem) := by
    have change := uses_edit step stem
    omega
  have bound := bounded stem bare
  have before := coherent.tracks stem bare
  cases step with
  | grant _ valid | attach _ _ valid =>
    refine tracks_change (validateGrantable_ok valid).1 bare before change bound ?_
    simp [Edit.adds, Edit.takes]
  | revoke present =>
    refine tracks_change (coherent.formed _ _ present) bare before change bound ?_
    simp [Edit.adds, Edit.takes, apply_ite]
  | detach present =>
    refine tracks_change (coherent.formedRole _ _ present) bare before change bound ?_
    simp [Edit.adds, Edit.takes, apply_ite]
  | _ => exact before

/-- Every stored namespace wildcard stays registered: only unused ones are unregistered. -/
theorem Coherent.registered_edit (coherent : Coherent w) (step : EditStep w e w') (bare : stem ≠ [])
    (used : 0 < uses w' stem) : stem ∈ wildcardPrefixes w' := by
  have change := uses_edit step stem
  have kept (same : uses w' stem ≤ uses w stem) : stem ∈ wildcardPrefixes w :=
    coherent.registered stem bare (used.trans_le same)
  have added {sel : Str} {kind : SelectorKind} (valid : validateGrantable w sel = .ok kind)
      (change : uses w' stem + 0 = uses w stem + if sel = pattern stem then 1 else 0) :
      stem ∈ wildcardPrefixes w := by
    by_cases own : sel = pattern stem
    · obtain ⟨formed, registered⟩ := validateGrantable_ok valid
      exact registered stem (classify_namespaced_iff.2 ⟨formed, bare, own⟩)
    · rw [if_neg own] at change
      exact kept change.le
  cases step with
  | grant _ valid | attach _ _ valid =>
    simp only [wildcardPrefixes, storeGrant, storeRolePermission, trackWildcardUse_wildcards]
    exact added valid change
  | revoke | detach =>
    simp only [wildcardPrefixes, dropGrant, dropRolePermission, trackWildcardUse_wildcards]
    exact kept (Nat.le_of_add_right_le change.le)
  | register =>
    rw [wildcardPrefixes, Store.readList_writeList, if_pos rfl]
    exact List.mem_append_left _ (kept change.le)
  | @unregister _ unused =>
    rw [wildcardPrefixes, Store.readList_writeList, if_pos rfl, List.mem_filter]
    refine ⟨kept change.le, ?_⟩
    rw [decide_eq_true_eq]
    rintro rfl
    rw [coherent.tracks stem bare] at unused
    exact absurd used (by rw [Nat.not_lt, ← unused]; exact change.le)
  | _ => exact kept change.le

theorem Coherent.edit (coherent : Coherent w) (bounded : Bounded w') (step : EditStep w e w') :
    Coherent w' where
  toIndexed := coherent.toIndexed.edit step
  tracks := fun _ bare => coherent.tracks_edit bounded step bare
  registered := fun _ bare used => coherent.registered_edit step bare used

/-! ## Calls -/

/-- The references stored before a call and those it asks for are fewer than a `u32` can count. -/
def Room (w : World Address) (action : Action Address) : Prop :=
  ∀ stem, stem ≠ [] →
    ((w.grant.keys ++ action.call.granted).filter (·.2 = pattern stem)).dedup.length +
      ((w.rolePermission.keys ++ action.call.attached).filter (·.2 = pattern stem)).dedup.length
    < 2 ^ 32

theorem Room.bounded_of (room : Room w action)
    (grants : ∀ key, w'.grant.has key = true → w.grant.has key = true ∨ key ∈ action.call.granted)
    (permissions : ∀ key, w'.rolePermission.has key = true →
      w.rolePermission.has key = true ∨ key ∈ action.call.attached) : Bounded w' := by
  intro stem bare
  have given : refs w'.grant (pattern stem) ≤ _ :=
    refs_le_of_listed action.call.granted fun _ => grants _
  have attached : refs w'.rolePermission (pattern stem) ≤ _ :=
    refs_le_of_listed action.call.attached fun _ => permissions _
  exact (Nat.add_le_add given attached).trans_lt (room stem bare)

theorem Room.bounded (room : Room w action) : Bounded w :=
  room.bounded_of (fun _ => .inl) fun _ => .inl

theorem Room.bounded_step (room : Room w action) (founded : Founded w) (step : Step w action w') :
    Bounded w' :=
  room.bounded_of (fun _ stored => (step_grant founded step stored).imp_right And.right)
    fun _ stored => (step_rolePermission founded step stored).imp_right And.right

variable {noted : Bool} {es : List (Edit Address)}

theorem Coherent.lowering (lower : ∀ e ∈ es, e.raises = false) (coherent : Coherent w)
    (bounded : Bounded w) (run : Run (Did noted) w es w') : Coherent w' := by
  refine (run.invariant_of_mem (P := fun w => Coherent w ∧ Bounded w) ⟨coherent, bounded⟩ ?_).1
  rintro _ e _ mem ⟨coherent, bounded⟩ (_ | ⟨step, _⟩)
  · exact ⟨coherent, bounded⟩
  · have bounded' := fun stem bare => by
      have change := uses_edit step stem
      rw [Edit.adds_eq_zero (lower e mem)] at change
      exact (Nat.le_of_add_right_le change.le).trans_lt (bounded stem bare)
    exact ⟨{ coherent.edit bounded' step with }, bounded'⟩

theorem Coherent.raising (raise : ∀ e ∈ es, e.lowers = false) (coherent : Coherent w)
    (run : Run (Did noted) w es w') (bounded : Bounded w') : Coherent w' := by
  refine run.invariant_of_mem (P := fun w => Bounded w → Coherent w) (fun _ => coherent) ?_ bounded
  rintro _ e _ mem before (_ | @⟨u, _, step, _⟩) bounded
  · exact before bounded
  · have start := before fun stem bare => by
      have change := uses_edit step stem
      rw [Edit.takes_eq_zero (raise e mem)] at change
      exact (Nat.le_of_add_right_le change.ge).trans_lt (bounded stem bare)
    have done : Coherent u := start.edit bounded step
    exact { done with }

/-- A call gives up references before it takes new ones. -/
theorem Call.edits_split (call : Call Address) (w : World Address) :
    ∃ l r, call.edits w = l ++ r ∧ (∀ e ∈ l, e.raises = false) ∧ ∀ e ∈ r, e.lowers = false := by
  cases call with
  | grant | batchGrant | grantRolePermission =>
    exact ⟨[], _, rfl, nofun, by simp [Edit.lowers]⟩
  | setupProtocolRoles =>
    refine ⟨[], _, rfl, nofun, ?_⟩
    simp +contextual [roleEdits, or_imp, forall_and, Edit.lowers]
  | registerWildcard =>
    refine ⟨_, [], (List.append_nil _).symm, ?_, nofun⟩
    rw [Call.edits]
    split_ifs <;> simp [Edit.raises]
  | batchSetMembers | batchSetPermissions =>
    refine ⟨_, _, rfl, List.forall_mem_map.2 fun _ _ => rfl, List.forall_mem_map.2 fun _ _ => rfl⟩
  | _ =>
    refine ⟨_, [], (List.append_nil _).symm, ?_, nofun⟩
    simp [Call.edits, or_imp, forall_and, Edit.raises]

theorem Coherent.step (coherent : Coherent w) (founded : Founded w) (room : Room w action)
    (step : Step w action w') : Coherent w' := by
  obtain ⟨run, -⟩ := step_edits founded step
  obtain ⟨l, r, split, lower, raise⟩ := action.call.edits_split w
  rw [split] at run
  obtain ⟨_, lowering, raising⟩ := run.of_append
  exact (coherent.lowering lower room.bounded lowering).raising raise raising
    (room.bounded_step founded step)

theorem founded_of_room (run : Run (Guarded Room Step) {} actions w) : Founded w :=
  founded_run (run.mono fun _ _ _ step => step.2)

theorem coherent_run (run : Run (Guarded Room Step) {} actions w) : Coherent w := by
  induction run with
  | nil => exact .empty
  | snoc before last ih => exact ih.step (founded_of_room before) last.1 last.2

theorem bounded_run (run : Run (Guarded Room Step) {} actions w) : Bounded w := by
  cases run with
  | nil => exact fun _ _ => Nat.two_pow_pos 32
  | snoc before last => exact last.1.bounded_step (founded_of_room before) last.2

/-- **Coherence**: after every run the index lists agree with the flags, and the roles that are
listed, that have an admin and that may have members or permissions are the same.  If all calls of
the run found room for the references they asked for, the count of every namespace wildcard is the
number of direct grants and role permissions of its pattern. -/
theorem index_coherent {actions : List (Action Address)} (run : Run Step {} actions w) :
    Indexed w ∧ (Run (Guarded Room Step) {} actions w →
      ∀ stem, stem ≠ [] → wildcardUse w stem = uses w stem) :=
  ⟨(founded_run run).toIndexed, fun guarded => (coherent_run guarded).tracks⟩

/-! ## Scenarios -/

section Scenarios

def Few (w : World Address) (action : Action Address) : Prop :=
  (w.grant.keys ++ action.call.granted).length +
    (w.rolePermission.keys ++ action.call.attached).length < 2 ^ 32

instance (w : World Address) (action : Action Address) : Decidable (Few w action) :=
  inferInstanceAs (Decidable (_ < _))

theorem Few.room {action : Action Address} (few : Few w action) : Room w action := by
  have fewer {K : Type} [DecidableEq K] (l : List (K × Str)) (sel : Str) :
      (l.filter (·.2 = sel)).dedup.length ≤ l.length :=
    ((List.dedup_sublist _).trans List.filter_sublist).length_le
  exact fun _ _ => (Nat.add_le_add (fewer _ _) (fewer _ _)).trans_lt few

theorem Run.of_few {actions : List (Action Address)}
    (h : actions.foldlM (execIf Few perform) {} = .ok w) :
    Run (Guarded Room Step) {} actions w := by
  refine Soroban.Run.of_foldlM (fun _ _ _ done => ?_) h
  obtain ⟨few, step⟩ := execIf_ok_iff.1 done
  exact ⟨few.room, step⟩

def signed (call : Call ℕ) : Action ℕ := ⟨⟨fun _ => true⟩, call⟩

/-- A wildcard is granted to an address and attached to two roles, in one of which it stays. -/
def grantedAndAttached : List (Action ℕ) :=
  [signed (.initializeAcl 0 .defaultConfig), signed (.registerWildcard 0 (ascii "a*")),
    signed (.grant 0 1 (ascii "a*")), signed (.createRole 0 (ascii "r") 2),
    signed (.batchSetPermissions 2 (ascii "r") [ascii "a*", ascii "b"]),
    signed (.batchSetMembers 2 (ascii "r") [3, 4, 3]), signed (.createRole 0 (ascii "s") 0),
    signed (.grantRolePermission 0 (ascii "s") (ascii "a*")), signed (.destroyRole 0 (ascii "s"))]

theorem grantedAndAttached_coherent :
    ∃ w : World ℕ, Run Step {} grantedAndAttached w ∧ Indexed w ∧
      wildcardUse w (ascii "a") = uses w (ascii "a") ∧ uses w (ascii "a") = 2 := by
  obtain ⟨w, h, two⟩ : ∃ w, grantedAndAttached.foldlM (execIf Few perform) {} = .ok w ∧
      uses w (ascii "a") = 2 := by
    decide +kernel
  have run : Run Step {} grantedAndAttached w := (Run.of_few h).mono fun _ _ _ step => step.2
  obtain ⟨indexed, exact_count⟩ := index_coherent run
  exact ⟨w, run, indexed, exact_count (Run.of_few h) _ (by decide), two⟩

def crowdConfig : AclConfig where
  maxBatchSize := 1
  maxGrantsPerAddress := 1
  maxRoles := 1
  maxPermissionsPerRole := 1
  maxMembersPerRole := 1
  maxRolesPerAddress := 1
  maxWildcards := 1

/-- The root admin grants `"a*"` to the addresses from 1 to `n`. -/
def crowd : ℕ → List (Action ℕ)
  | 0 => [signed (.initializeAcl 0 crowdConfig), signed (.registerWildcard 0 (pattern (ascii "a")))]
  | n + 1 => crowd n ++ [signed (.grant 0 (n + 1) (pattern (ascii "a")))]

structure Crowded (n : ℕ) (w : World ℕ) : Prop where
  admin : w.admin = some 0
  config : w.config = some crowdConfig
  lockdown : w.lockdown = some false
  wildcards : wildcardPrefixes w = [ascii "a"]
  granted : ∀ a s, w.grant.has (a, s) = true ↔ s = pattern (ascii "a") ∧ 1 ≤ a ∧ a ≤ n
  grants : ∀ a, n < a → w.grants.readList a = []
  roles : ∀ a, w.roles.readList a = []
  uses : uses w (ascii "a") = n
  count : wildcardUse w (ascii "a") = n % 2 ^ 32

theorem crowd_run (n : ℕ) : ∃ w, Run Step {} (crowd n) w ∧ Crowded n w := by
  induction n with
  | zero =>
    obtain ⟨w, h, admin, config, lockdown, wildcards, grant, grants, roles, permissions, count⟩ :
        ∃ w : World ℕ, (crowd 0).foldlM perform {} = .ok w ∧ w.admin = some 0 ∧
          w.config = some crowdConfig ∧ w.lockdown = some false ∧
          wildcardPrefixes w = [ascii "a"] ∧ w.grant.entries = [] ∧ w.grants.entries = [] ∧
          w.roles.entries = [] ∧ w.rolePermission.entries = [] ∧ wildcardUse w (ascii "a") = 0 := by
      decide +kernel
    have noGrant : w.grant = ∅ := AList.ext grant
    have noList : w.grants = ∅ := AList.ext grants
    have noRole : w.roles = ∅ := AList.ext roles
    have noPermission : w.rolePermission = ∅ := AList.ext permissions
    refine ⟨w, Run.of_foldlM (fun _ _ _ => id) h, admin, config, lockdown, wildcards, ?_, ?_, ?_,
      ?_, count⟩
    · intro a s
      rw [noGrant, Store.has_empty]
      exact iff_of_false Bool.false_ne_true (by omega)
    · intro a _
      rw [noList]
      rfl
    · intro a
      rw [noRole]
      rfl
    · rw [AccessControl.uses, noGrant, noPermission]
      rfl
  | succ n ih =>
    obtain ⟨w, run, crowded⟩ := ih
    have formed : WellFormed (pattern (ascii "a")) := by decide
    have bare : ascii "a" ≠ [] := by decide
    have absent : w.grant.has (n + 1, pattern (ascii "a")) = false := by
      rw [← Bool.not_eq_true, crowded.granted]
      omega
    have valid : validateGrantable w (pattern (ascii "a")) = .ok (.namespaced (ascii "a")) := by
      simp only [validateGrantable, ok_iff]
      refine ⟨_, classify_namespaced_iff.2 ⟨formed, bare, rfl⟩, (), ?_, rfl⟩
      rw [requireRegistered, reject_ok_iff, not_not, crowded.wildcards]
      exact List.mem_singleton_self _
    have granted : grant ⟨fun _ => true⟩ 0 (n + 1) (pattern (ascii "a")) w =
        .ok (true, emit (.grant 0 (n + 1) (pattern (ascii "a")) true 1)
          (storeGrant (n + 1) (pattern (ascii "a")) w)) := by
      unfold grant applyGrant requireRoot requireWritable requireAuth readConfig
      rw [if_neg (by simp [absent])]
      simp only [ok_iff]
      refine ⟨(), ⟨(), by simp [isRoot, crowded.admin], trivial⟩, (),
        by simp [isLocked, crowded.lockdown], (true, _),
        ⟨_, valid, _, crowded.config, (), ?_, rfl⟩, rfl⟩
      rw [crowded.grants _ (Nat.lt_succ_self n)]
      exact not_le.2 Nat.one_pos
    have more := uses_edit (EditStep.grant absent valid) (ascii "a")
    have count : wildcardUse (storeGrant (n + 1) (pattern (ascii "a")) w) (ascii "a") =
        (n + 1) % 2 ^ 32 := by
      rw [storeGrant, wildcardUse_track formed bare, if_pos rfl]
      have before := crowded.count
      unfold wildcardUse at before ⊢
      dsimp only
      rw [before]
      omega
    refine ⟨_, run.snoc (map_ok_iff.2 ⟨_, map_ok_iff.2 ⟨_, granted, rfl⟩, rfl⟩), ?_⟩
    obtain ⟨_, eq⟩ := trackWildcardUse_eq (pattern (ascii "a")) 1 { w with
      grant := w.grant.set (n + 1, pattern (ascii "a")) true
      grants := w.grants.writeList (n + 1) (w.grants.readList (n + 1) ++ [pattern (ascii "a")]) }
    rw [storeGrant, eq] at more count ⊢
    refine ⟨crowded.admin, crowded.config, crowded.lockdown, crowded.wildcards, ?_, ?_,
      crowded.roles, ?_, count⟩
    · intro a s
      refine (Store.has_set_iff ..).trans ?_
      rw [crowded.granted, Prod.mk.injEq]
      constructor
      · rintro (⟨rfl, rfl⟩ | ⟨rfl, low, high⟩)
        · exact ⟨rfl, by omega, le_rfl⟩
        · exact ⟨rfl, low, by omega⟩
      · rintro ⟨rfl, low, high⟩
        rcases Nat.lt_or_ge n a with _ | before
        · exact .inl ⟨by omega, rfl⟩
        · exact .inr ⟨rfl, low, before⟩
    · intro a _
      refine (Store.readList_writeList ..).trans ?_
      rw [if_neg (by omega)]
      exact crowded.grants a (by omega)
    · rw [crowded.uses, Edit.adds, if_pos rfl] at more
      exact more

/-- After `2 ^ 32` grants of a pattern its count is zero. -/
theorem count_wraps :
    ∃ w : World ℕ, Run Step {} (crowd (2 ^ 32)) w ∧ wildcardUse w (ascii "a") = 0 ∧
      uses w (ascii "a") = 2 ^ 32 := by
  obtain ⟨w, run, crowded⟩ := crowd_run (2 ^ 32)
  exact ⟨w, run, crowded.count.trans (Nat.mod_self _), crowded.uses⟩

end Scenarios

end AccessControl
