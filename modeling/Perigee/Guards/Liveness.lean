import Perigee.Guards.Contract

/-!
# The committee can always act

A threshold between one and the number of distinct admins lets the committee approve anything.  The
core compares the threshold with the length of the admin list, so this holds in every reachable
state exactly when the list given to `initGuard` has no repetition.
-/

namespace Guards

open Soroban

variable {Address : Type} [DecidableEq Address] {w w' : World Address}
  {admins approvers : List Address} {threshold : ℕ} {auth : Address → Bool} {addr a : Address}

/-! ## The multi-signature check -/

theorem any_eq_iff : admins.any (· = addr) = true ↔ addr ∈ admins := by
  simp

theorem isAdmin_iff : isAdmin w addr = true ↔ addr ∈ getAdmins w := any_eq_iff

theorem countValid_ok_iff {seen : List Address} {valid n : ℕ} :
    countValid auth w approvers seen valid = .ok n ↔
      (∀ a ∈ approvers, a ∉ seen → a ∈ getAdmins w ∧ auth a = true) ∧
        valid + (approvers.toFinset \ seen.toFinset).card = n := by
  induction approvers generalizing seen valid with
  | nil => simp [countValid, pure_ok_iff]
  | cons a rest ih =>
    rw [countValid, List.toFinset_cons, List.forall_mem_cons]
    by_cases before : a ∈ seen
    · rw [if_pos (any_eq_iff.2 before), ih,
        Finset.insert_sdiff_of_mem _ (List.mem_toFinset.2 before)]
      simp [before]
    rw [if_neg (mt any_eq_iff.1 before)]
    by_cases signed : a ∈ getAdmins w ∧ auth a = true
    · rw [if_pos (isAdmin_iff.2 signed.1), requireAuth, if_pos signed.2]
      change countValid auth w rest (seen ++ [a]) (valid + 1) = _ ↔ _
      -- of the rest, the copies of `a` are not counted again
      have others : (insert a rest.toFinset \ seen.toFinset).card =
          (rest.toFinset \ (seen ++ [a]).toFinset).card + 1 := by
        rw [← Finset.card_insert_of_notMem (a := a) (by simp)]
        congr 1
        ext b
        by_cases same : b = a <;> simp [same, before]
      rw [ih, others, Nat.add_right_comm]
      refine and_congr_left' ⟨fun later => ⟨fun _ => signed, fun b hb new => ?_⟩, fun h b hb new =>
        h.2 b hb fun old => new (List.mem_append_left _ old)⟩
      by_cases same : b = a
      · exact same ▸ signed
      · exact later b hb (by simp [new, same])
    · refine iff_of_false (fun h => signed ?_) fun h => signed (h.1.1 before)
      split_ifs at h with admin
      obtain ⟨_, passed, -⟩ := bind_ok_iff.1 h
      unfold requireAuth at passed
      split_ifs at passed with authorized
      exact ⟨isAdmin_iff.1 admin, authorized⟩

theorem validateMultiSig_ok_iff (stored : w.signatureThreshold = some threshold) :
    validateMultiSig auth approvers w = .ok () ↔
      (∀ a ∈ approvers, a ∈ getAdmins w ∧ auth a = true) ∧ threshold ≤ approvers.toFinset.card := by
  simp only [validateMultiSig, ok_iff, not_lt, stored, Option.some.injEq, countValid_ok_iff]
  constructor
  · rintro ⟨_, rfl, _, -, _, ⟨signed, rfl⟩, enough⟩
    exact ⟨fun a ha => signed a ha List.not_mem_nil, by simpa using enough⟩
  · rintro ⟨signed, enough⟩
    exact ⟨_, rfl, (), enough.trans (List.toFinset_card_le _), _, ⟨fun a ha _ => signed a ha, rfl⟩,
      by simpa using enough⟩

theorem countValid_error (authorized : ∀ a ∈ approvers, auth a = true) {seen : List Address}
    {valid : ℕ} {e : Fault GuardError} (h : countValid auth w approvers seen valid = .error e) :
    e = .err .unauthorized := by
  induction approvers generalizing seen valid with
  | nil => cases h
  | cons a rest ih =>
    rw [List.forall_mem_cons] at authorized
    rw [countValid, requireAuth, if_pos authorized.1] at h
    split_ifs at h
    · exact ih authorized.2 h
    · exact ih authorized.2 h
    · exact (Except.error.inj h).symm

theorem countValid_of_authorized (authorized : ∀ a ∈ approvers, auth a = true) :
    countValid auth w approvers [] 0 = if ∀ a ∈ approvers, a ∈ getAdmins w
      then .ok approvers.toFinset.card else .error (.err .unauthorized) := by
  cases counted : countValid auth w approvers [] 0 with
  | ok n =>
    obtain ⟨signed, rfl⟩ := countValid_ok_iff.1 counted
    rw [if_pos fun a ha => (signed a ha List.not_mem_nil).1]
    simp
  | error e =>
    rw [if_neg, countValid_error authorized counted]
    intro admins
    have passed : countValid auth w approvers [] 0 = .ok _ :=
      countValid_ok_iff.2 ⟨fun a ha _ => ⟨admins a ha, authorized a ha⟩, rfl⟩
    cases counted.symm.trans passed

/-- **The multi-signature check is exact**: it passes when every approver is an admin who authorized
the call and the distinct ones reach the threshold.  The order of the approvers does not matter,
also not for the error, unless an authorization is missing, which aborts the call. -/
theorem validateMultiSig_exact (stored : w.signatureThreshold = some threshold) :
    (validateMultiSig auth approvers w = .ok () ↔
      (∀ a ∈ approvers, a ∈ getAdmins w ∧ auth a = true) ∧
        threshold ≤ approvers.toFinset.card) ∧
    ∀ others : List Address, others.Perm approvers →
      (validateMultiSig auth others w = .ok () ↔ validateMultiSig auth approvers w = .ok ()) ∧
      ((∀ a ∈ approvers, auth a = true) →
        validateMultiSig auth others w = validateMultiSig auth approvers w) := by
  refine ⟨validateMultiSig_ok_iff stored, fun others perm => ⟨?_, fun authorized => ?_⟩⟩
  · rw [validateMultiSig_ok_iff stored, validateMultiSig_ok_iff stored,
      List.toFinset_eq_of_perm _ _ perm]
    simp only [perm.mem_iff]
  · rw [validateMultiSig, validateMultiSig, perm.length_eq, countValid_of_authorized authorized,
      countValid_of_authorized fun a ha => authorized a (perm.mem_iff.1 ha),
      List.toFinset_eq_of_perm _ _ perm]
    simp only [perm.mem_iff]

/-- Two of three admins pass, also with a repetition. -/
theorem two_admins_pass :
    validateMultiSig (fun _ => true) [2, 1, 2]
      { admins := some [1, 2, 3], signatureThreshold := some 2 } = .ok () :=
  (validateMultiSig_exact rfl).1.2 (by decide)

/-! ## Liveness -/

/-- The threshold is between one and the number of distinct admins, and there are approvers whose
signatures pass the check. -/
def Live (w : World Address) : Prop :=
  ∃ threshold, w.signatureThreshold = some threshold ∧ 1 ≤ threshold ∧
    threshold ≤ (getAdmins w).toFinset.card ∧
    ∃ approvers : List Address, ∀ auth : Address → Bool, (∀ a ∈ approvers, auth a = true) →
      validateMultiSig auth approvers w = .ok ()

/-- What a committee without repetitions keeps. -/
structure Committee (w : World Address) : Prop where
  threshold : ∃ t, w.signatureThreshold = some t ∧ 1 ≤ t ∧ t ≤ (getAdmins w).length
  nodup : (getAdmins w).Nodup

theorem Committee.live (committee : Committee w) : Live w := by
  obtain ⟨t, stored, positive, enough⟩ := committee.threshold
  rw [← List.toFinset_card_of_nodup committee.nodup] at enough
  exact ⟨t, stored, positive, enough, getAdmins w, fun _ signed =>
    (validateMultiSig_ok_iff stored).2 ⟨fun a ha => ⟨ha, signed a ha⟩, enough⟩⟩

theorem length_filter_ne (nodup : admins.Nodup) (member : a ∈ admins) :
    (admins.filter (· ≠ a)).length + 1 = admins.length := by
  have erased : admins.erase a = admins.filter (· ≠ a) := by
    rw [nodup.erase_eq_filter]
    congr
    funext b
    simp [bne, beq_eq_decide]
  rw [← erased, List.length_erase_add_one member]

theorem Committee.step {action : (Address → Bool) × Call Address} (committee : Committee w)
    (step : Step w action w') : Committee w' := by
  obtain ⟨auth, call⟩ := action
  change exec auth w call = .ok w' at step
  cases call <;>
    simp only [exec, setPauseState, setPauseByAdmin, emergencyPauseAll, resumeAll, unpauseAll,
      addAdmin, removeAdmin, rotateAdmin, ok_iff, not_lt, not_not] at step
  case setPauseState | unpauseAll =>
    obtain rfl := step
    exact ⟨committee.threshold, committee.nodup⟩
  case setPauseByAdmin =>
    obtain ⟨_, -, _, -, rfl⟩ := step
    exact ⟨committee.threshold, committee.nodup⟩
  case emergencyPauseAll | resumeAll =>
    obtain ⟨_, -, rfl⟩ := step
    exact ⟨committee.threshold, committee.nodup⟩
  case addAdmin approvers newAdmin =>
    obtain ⟨_, -, step⟩ := step
    split_ifs at step with member
    · obtain rfl := pure_ok_iff.1 step
      exact committee
    · obtain rfl := pure_ok_iff.1 step
      obtain ⟨t, stored, positive, enough⟩ := committee.threshold
      refine ⟨⟨t, stored, positive, ?_⟩, ?_⟩
      · exact enough.trans (by simp [getAdmins])
      · have new : newAdmin ∉ getAdmins w := mt any_eq_iff.2 member
        exact List.Nodup.append committee.nodup (List.nodup_singleton _) (by simpa using new)
  case removeAdmin approvers admin =>
    obtain ⟨_, -, _, longer, _, member, rfl⟩ := step
    obtain ⟨t, stored, positive, -⟩ := committee.threshold
    have present : admin ∈ getAdmins w := any_eq_iff.1 member
    have shorter := length_filter_ne committee.nodup present
    rw [getThreshold, stored, Option.getD_some] at longer
    refine ⟨⟨t, stored, positive, ?_⟩, committee.nodup.filter _⟩
    change t ≤ ((getAdmins w).filter (· ≠ admin)).length
    omega
  case rotateAdmin =>
    obtain ⟨_, -, _, -, _, enough, rfl⟩ := step
    obtain ⟨t, stored, positive, -⟩ := committee.threshold
    rw [getThreshold, stored] at enough
    refine ⟨⟨t, stored, positive, enough⟩, ?_⟩
    apply List.Nodup.append (committee.nodup.filter _) (List.nodup_singleton _)
    simp

/-! ## A repeated admin -/

theorem card_lt_of_repeated (repeated : ¬ admins.Nodup) : admins.toFinset.card < admins.length := by
  refine lt_of_le_of_ne (List.dedup_sublist admins).length_le fun same => repeated ?_
  rw [← (List.dedup_sublist admins).eq_of_length same]
  exact List.nodup_dedup admins

/-- With everyone's signature a committee that can act removes any admin, while the list is longer
than the threshold. -/
theorem remove_step (stored : w.signatureThreshold = some threshold)
    (enough : threshold ≤ (getAdmins w).toFinset.card) (longer : threshold < (getAdmins w).length)
    (member : a ∈ getAdmins w) :
    Step w (fun _ => true, .removeAdmin (getAdmins w) a)
      { w with admins := some ((getAdmins w).filter (· ≠ a)) } := by
  have approved : validateMultiSig (fun _ => true) (getAdmins w) w = .ok () :=
    (validateMultiSig_ok_iff stored).2 ⟨fun _ hb => ⟨hb, rfl⟩, enough⟩
  unfold Step
  simp only [exec, removeAdmin, ok_iff, not_le, not_not]
  refine ⟨(), approved, (), ?_, (), any_eq_iff.2 member, trivial⟩
  rwa [getThreshold, stored]

/-- Someone is on the list twice, so a committee that can still act can be shrunk until it cannot:
the others are removed first, then the one listed twice. -/
theorem not_live_of_repeated (n : ℕ) (short : (getAdmins w).length ≤ n)
    (repeated : ¬ (getAdmins w).Nodup) :
    ∃ actions w', Run Step w actions w' ∧ ¬ Live w' := by
  induction n generalizing w with
  | zero => exact absurd (List.length_eq_zero_iff.1 (Nat.le_zero.1 short) ▸ List.nodup_nil) repeated
  | succ n ih =>
    by_cases live : Live w
    · obtain ⟨t, stored, _, enough, -⟩ := live
      have longer := enough.trans_lt (card_lt_of_repeated repeated)
      obtain ⟨a, twice⟩ := List.exists_duplicate_iff_not_nodup.2 repeated
      by_cases others : ∃ b ∈ getAdmins w, b ≠ a
      · obtain ⟨b, member, differs⟩ := others
        have removed := remove_step stored enough longer member
        have still : ¬ ((getAdmins w).filter (· ≠ b)).Nodup := by
          rw [← List.exists_duplicate_iff_not_nodup]
          refine ⟨a, List.duplicate_iff_two_le_count.2 ?_⟩
          rw [List.count_filter (by simpa using differs.symm)]
          exact List.duplicate_iff_two_le_count.1 twice
        have shorter : ((getAdmins w).filter (· ≠ b)).length < (getAdmins w).length :=
          List.length_filter_lt_length_iff_exists.2 ⟨b, member, by simp⟩
        obtain ⟨actions, w', run, dead⟩ := ih
          (w := { w with admins := some ((getAdmins w).filter (· ≠ b)) })
          (Nat.lt_succ_iff.1 (shorter.trans_le short)) still
        exact ⟨_, w', run.cons removed, dead⟩
      · push Not at others
        have removed := remove_step stored enough longer twice.mem
        refine ⟨_, _, Run.nil.snoc removed, ?_⟩
        rintro ⟨_, -, _, enough', -⟩
        have empty : (getAdmins w).filter (· ≠ a) = [] :=
          List.filter_eq_nil_iff.2 fun b hb => by simpa using others b hb
        rw [getAdmins, empty] at enough'
        simp at enough'
        omega
    · exact ⟨[], w, .nil, live⟩

omit [DecidableEq Address] in
theorem initial_admins (init : InitialWith admins threshold w) :
    w.signatureThreshold = some threshold ∧ getAdmins w = admins ∧ 1 ≤ threshold ∧
      threshold ≤ admins.length := by
  simp only [InitialWith, initGuard, ok_iff, not_or, not_lt] at init
  obtain ⟨_, -, _, ⟨nonzero, enough⟩, rfl⟩ := init
  exact ⟨rfl, rfl, Nat.one_le_iff_ne_zero.2 nonzero, enough⟩

/-- The committee can act in every reachable state exactly when its members were distinct at the
start. -/
theorem live_iff_nodup (init : InitialWith admins threshold w) :
    (∀ w', Reachable (InitialWith admins threshold) Step w' → Live w') ↔ admins.Nodup := by
  obtain ⟨stored, same, positive, enough⟩ := initial_admins init
  constructor
  · intro live
    by_contra repeated
    rw [← same] at repeated
    obtain ⟨actions, w', run, dead⟩ := not_live_of_repeated _ le_rfl repeated
    exact dead (live w' ⟨w, actions, init, run⟩)
  · intro nodup w' reach
    refine (reach.invariant (fun _ init₀ => ?_) fun _ _ _ => Committee.step).live
    obtain ⟨stored, same, positive, enough⟩ := initial_admins init₀
    exact ⟨⟨threshold, stored, positive, same ▸ enough⟩, same ▸ nodup⟩

/-- A committee of three with a threshold of two can always act. -/
theorem three_admins_live :
    (∃ w : World ℕ, InitialWith [1, 2, 3] 2 w) ∧
      ∀ w' : World ℕ, Reachable (InitialWith [1, 2, 3] 2) Step w' → Live w' := by
  obtain ⟨w, init⟩ : ∃ w : World ℕ, initGuard [1, 2, 3] 2 {} = .ok w := by decide
  exact ⟨⟨w, init⟩, (live_iff_nodup init).2 (by decide)⟩

/-- A committee of one admin listed twice is accepted with a threshold of two, which nobody
meets. -/
theorem repeated_admin_not_live :
    ∃ w : World ℕ, Reachable (InitialWith [1, 1] 2) Step w ∧ w.signatureThreshold = some 2 ∧
      (getAdmins w).toFinset.card = 1 ∧ ¬ Live w := by
  obtain ⟨w, init, stored, one⟩ : ∃ w : World ℕ, initGuard [1, 1] 2 {} = .ok w ∧
      w.signatureThreshold = some 2 ∧ (getAdmins w).toFinset.card = 1 := by decide
  refine ⟨w, .start init, stored, one, ?_⟩
  rintro ⟨t, stored', -, _, -⟩
  obtain rfl := Option.mem_unique stored stored'
  omega

end Guards
