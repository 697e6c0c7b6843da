import Perigee.PrivateTransfers.Contract

/-!
# Which transfers keep the root append-only

A transfer continues the root it names, not the current one, and it overwrites the ciphertexts of
its commitments.  Nullifiers are accepted once in every run.
-/

namespace PrivateTransfers

open Soroban
open Sha256 (Digest)

variable {Address : Type} {sha256 : Bytes → Digest} {s s' : Traced Address}
  {action : Action Address} {actions : List (Action Address)} {transfer : PrivateTransfer}
  {S : Set Bytes}

def PrivateTransfer.updates (transfer : PrivateTransfer) : List EncryptedBalanceUpdate :=
  [transfer.senderUpdate, transfer.recipientUpdate]

/-- The initial root, continued by the commitments of all transfers in order. -/
def foldedRoot (sha256 : Bytes → Digest) (initial : Digest) (accepted : List PrivateTransfer) :
    Digest :=
  accepted.foldl (nextRootForTransfer sha256) initial

/-- The current root covers every accepted transfer, and every accepted commitment has the
ciphertext it was accepted with. -/
structure AppendOnly (sha256 : Bytes → Digest) (s : Traced Address) : Prop where
  root : ∀ initial, s.initial = some initial →
    s.world.currentRoot = some (foldedRoot sha256 initial s.accepted)
  notes : ∀ transfer ∈ s.accepted, ∀ update ∈ transfer.updates,
    encryptedNote s.world update.commitment = some update.ciphertext

/-- A transfer names the current root, and no other ciphertext is stored under its commitments. -/
def Appends (s : Traced Address) (action : Action Address) : Prop :=
  match action.call with
  | .applyPrivateTransfer _ transfer _ =>
    s.world.currentRoot = some transfer.oldRoot ∧
      ∀ update ∈ transfer.updates, ∀ note ∈ encryptedNote s.world update.commitment,
        note = update.ciphertext
  | _ => True

instance (s : Traced Address) (action : Action Address) : Decidable (Appends s action) := by
  unfold Appends
  split <;> infer_instance

/-- The strings hashed to continue a root by a transfer. -/
def rootStrings (sha256 : Bytes → Digest) (root : Digest) (transfer : PrivateTransfer) :
    List Bytes :=
  [root.1 ++ transfer.senderUpdate.commitment.1,
    (hashConcat sha256 root transfer.senderUpdate.commitment).1 ++
      transfer.recipientUpdate.commitment.1]

/-- A transfer continues the current root, and the root it names, by hashing strings in `S`. -/
def HashesIn (sha256 : Bytes → Digest) (S : Set Bytes) (s : Traced Address)
    (action : Action Address) : Prop :=
  match action.call with
  | .applyPrivateTransfer _ transfer _ => ∀ root, s.world.currentRoot = some root →
    ∀ x ∈ rootStrings sha256 root transfer ++ rootStrings sha256 transfer.oldRoot transfer, x ∈ S
  | _ => True

/-! ## What a call does -/

inductive Effect (sha256 : Bytes → Digest) (s : Traced Address) :
    Call Address → Traced Address → Prop
  | initializeTransfers {admin verifier : Address} {key initialRoot : Digest}
      (fresh : s.world.admin = none) {s' : Traced Address}
      (initial : s'.initial = some initialRoot) (accepted : s'.accepted = s.accepted)
      (admins : s'.world.admin = some admin) (root : s'.world.currentRoot = some initialRoot)
      (nullifiers : s'.world.nullifiers = s.world.nullifiers)
      (notes : s'.world.ciphertexts = s.world.ciphertexts) :
      Effect sha256 s (.initializeTransfers admin verifier key initialRoot) s'
  | setVerifier {verifier : Address} {key : Digest} :
      Effect sha256 s (.setVerifier verifier key) { s with
        world := { s.world with verifier := some verifier, verificationKeyHash := some key } }
  | applied {relayer : Address} {transfer : PrivateTransfer} {proof : Bytes} {s' : Traced Address}
      {currentRoot : Digest} (current : s.world.currentRoot = some currentRoot)
      (apart : transfer.senderUpdate.commitment ≠ transfer.recipientUpdate.commitment)
      (unused : isNullifierUsed s.world transfer.nullifier = false)
      (initial : s'.initial = s.initial) (accepted : s'.accepted = s.accepted ++ [transfer])
      (admins : s'.world.admin = s.world.admin)
      (root : s'.world.currentRoot = some (nextRootForTransfer sha256 transfer.oldRoot transfer))
      (nullifiers : s'.world.nullifiers = s.world.nullifiers.set transfer.nullifier true)
      (notes : s'.world.ciphertexts = (s.world.ciphertexts.set transfer.senderUpdate.commitment
        transfer.senderUpdate.ciphertext).set transfer.recipientUpdate.commitment
        transfer.recipientUpdate.ciphertext) :
      Effect sha256 s (.applyPrivateTransfer relayer transfer proof) s'

theorem step_effect (step : Step sha256 s action s') : Effect sha256 s action.call s' := by
  obtain ⟨_, call⟩ := action
  cases call with
  | initializeTransfers _ _ _ initialRoot =>
    simp only [Step, perform, initializeTransfers, ok_iff] at step
    obtain ⟨_, ⟨_, fresh, rfl⟩, rfl⟩ := step
    have same : (if initialRoot = zeroRoot then zeroRoot else initialRoot) = initialRoot := by
      split_ifs with zero
      · exact zero.symm
      · rfl
    refine .initializeTransfers (by simpa using fresh) rfl rfl rfl ?_ rfl rfl
    rw [same]
    rfl
  | setVerifier =>
    simp only [Step, perform, setVerifier, ok_iff] at step
    obtain ⟨_, ⟨_, -, rfl⟩, rfl⟩ := step
    exact .setVerifier
  | applyPrivateTransfer =>
    simp only [Step, perform, applyPrivateTransfer, readCurrentRoot, ok_iff,
      Bool.not_eq_true] at step
    obtain ⟨_, ⟨_, -, _, apart, _, unused, _, -, _, current, _, -, _, -, _, -, rfl⟩, rfl⟩ := step
    exact .applied current apart unused rfl rfl rfl rfl rfl rfl

/-! ## What holds in every run -/

/-- The storage agrees with the accepted transfers; nothing is accepted before the
initialization. -/
structure Recorded (s : Traced Address) : Prop where
  initialized : s.initial.isSome = true ↔ s.world.admin.isSome = true
  started : s.world.currentRoot.isSome = true ↔ s.world.admin.isSome = true
  blank : s.initial = none → s.accepted = []
  distinct : (s.accepted.map PrivateTransfer.nullifier).Nodup
  used : ∀ transfer ∈ s.accepted, isNullifierUsed s.world transfer.nullifier = true
  sourced : ∀ commitment note, encryptedNote s.world commitment = some note →
    ∃ transfer ∈ s.accepted, ∃ update ∈ transfer.updates, update.commitment = commitment

theorem Recorded.empty : Recorded ({} : Traced Address) :=
  ⟨Iff.rfl, Iff.rfl, fun _ => rfl, List.nodup_nil, nofun, nofun⟩

theorem lookup_applied {notes : Store Digest Bytes} (commitment : Digest) :
    ((notes.set transfer.senderUpdate.commitment transfer.senderUpdate.ciphertext).set
      transfer.recipientUpdate.commitment transfer.recipientUpdate.ciphertext).lookup commitment =
      if commitment = transfer.recipientUpdate.commitment then
        some transfer.recipientUpdate.ciphertext
      else if commitment = transfer.senderUpdate.commitment then
        some transfer.senderUpdate.ciphertext
      else notes.lookup commitment := by
  rw [Store.lookup_set, Store.lookup_set]

theorem Recorded.step (recorded : Recorded s) (step : Step sha256 s action s') : Recorded s' := by
  obtain ⟨_, _⟩ := action
  cases step_effect step with
  | initializeTransfers fresh initial accepted admins root _ notes =>
    have none : s.initial = none := by
      have := recorded.initialized
      rw [fresh] at this
      simpa using this
    have empty := recorded.blank none
    refine ⟨by simp [initial, admins], by simp [root, admins], by simp [initial], ?_, ?_, ?_⟩
    · rw [accepted]
      exact recorded.distinct
    · rw [accepted, empty]
      exact nofun
    · unfold encryptedNote
      rw [notes, accepted]
      exact recorded.sourced
  | setVerifier => exact ⟨recorded.1, recorded.2, recorded.3, recorded.4, recorded.5, recorded.6⟩
  | @applied _ transfer _ _ _ current _ unused initial accepted admins root nullifiers notes =>
    have known : s.world.admin.isSome = true := recorded.started.1 (by rw [current]; rfl)
    have used (n : Digest) : isNullifierUsed s'.world n = true ↔
        n = transfer.nullifier ∨ isNullifierUsed s.world n = true := by
      unfold isNullifierUsed
      rw [nullifiers, Store.getD_set]
      split_ifs with same <;> simp [same]
    refine ⟨?_, ?_, fun none => ?_, ?_, ?_, ?_⟩
    · rw [initial, admins]
      exact recorded.initialized
    · rw [root, admins]
      exact iff_of_true rfl known
    · rw [initial] at none
      have := recorded.initialized.2 known
      simp [none] at this
    · rw [accepted, List.map_append]
      refine List.Nodup.append recorded.distinct (List.nodup_singleton _) fun n there own => ?_
      obtain ⟨earlier, mem, rfl⟩ := List.mem_map.1 there
      have spent := recorded.used earlier mem
      rw [List.mem_singleton.1 own, unused] at spent
      exact Bool.false_ne_true spent
    · intro t mem
      rw [accepted, List.mem_append, List.mem_singleton] at mem
      rw [used]
      rcases mem with old | rfl
      · exact .inr (recorded.used t old)
      · exact .inl rfl
    · intro commitment note stored
      unfold encryptedNote at stored
      rw [notes, lookup_applied] at stored
      rw [accepted]
      split_ifs at stored with recipient sender
      · exact ⟨transfer, by simp, transfer.recipientUpdate, by simp [PrivateTransfer.updates],
          recipient.symm⟩
      · exact ⟨transfer, by simp, transfer.senderUpdate, by simp [PrivateTransfer.updates],
          sender.symm⟩
      · obtain ⟨earlier, mem, update, of, same⟩ := recorded.sourced commitment note stored
        exact ⟨earlier, List.mem_append_left _ mem, update, of, same⟩

/-! ## The exact condition -/

theorem nextRoot_injective (free : S.InjOn sha256) {root root' : Digest}
    (inside : ∀ x ∈ rootStrings sha256 root transfer ++ rootStrings sha256 root' transfer, x ∈ S)
    (same : nextRootForTransfer sha256 root transfer = nextRootForTransfer sha256 root' transfer) :
    root = root' := by
  simp only [rootStrings, List.cons_append, List.nil_append, List.forall_mem_cons] at inside
  obtain ⟨first, second, first', second', -⟩ := inside
  have outer := free second second' same
  have inner := Subtype.ext (List.append_cancel_right outer)
  exact Subtype.ext (List.append_cancel_right (free first first' inner))

theorem foldedRoot_snoc (initial : Digest) (accepted : List PrivateTransfer)
    (transfer : PrivateTransfer) :
    foldedRoot sha256 initial (accepted ++ [transfer]) =
      nextRootForTransfer sha256 (foldedRoot sha256 initial accepted) transfer := by
  unfold foldedRoot
  rw [List.foldl_append, List.foldl_cons, List.foldl_nil]

theorem AppendOnly.step (recorded : Recorded s) (appendOnly : AppendOnly sha256 s)
    (step : Step sha256 s action s') (appends : Appends s action) : AppendOnly sha256 s' := by
  obtain ⟨_, call⟩ := action
  cases step_effect step with
  | initializeTransfers fresh initial accepted _ root =>
    have none : s.initial = none := by
      have := recorded.initialized
      rw [fresh] at this
      simpa using this
    have empty : s'.accepted = [] := accepted.trans (recorded.blank none)
    constructor
    · intro given known
      obtain rfl := Option.mem_unique initial known
      rw [root, empty]
      rfl
    · rw [empty]
      exact nofun
  | setVerifier => exact ⟨appendOnly.root, appendOnly.notes⟩
  | @applied _ transfer _ _ _ _ apart _ initial accepted _ root _ notes =>
    obtain ⟨named, free⟩ := appends
    constructor
    · intro given known
      have covered := appendOnly.root given (initial ▸ known)
      rw [named] at covered
      rw [root, accepted, foldedRoot_snoc, ← Option.some.inj covered]
    · intro t mem update of
      rw [accepted, List.mem_append, List.mem_singleton] at mem
      unfold encryptedNote
      rw [notes, lookup_applied]
      rcases mem with old | rfl
      · -- An old commitment that is written again is written with the ciphertext it has.
        have kept := appendOnly.notes t old update of
        split_ifs with recipient sender
        · have same := free transfer.recipientUpdate (by simp [PrivateTransfer.updates])
            update.ciphertext (by rw [← recipient]; exact kept)
          rw [same]
        · have same := free transfer.senderUpdate (by simp [PrivateTransfer.updates])
            update.ciphertext (by rw [← sender]; exact kept)
          rw [same]
        · exact kept
      · simp only [PrivateTransfer.updates, List.mem_cons, List.not_mem_nil, or_false] at of
        rcases of with rfl | rfl
        · rw [if_neg apart, if_pos rfl]
        · rw [if_pos rfl]

/-- A call between append-only states appends, if its strings do not collide. -/
theorem appends_of_appendOnly (free : S.InjOn sha256) (recorded : Recorded s)
    (before : AppendOnly sha256 s) (inside : HashesIn sha256 S s action)
    (step : Step sha256 s action s') (after : AppendOnly sha256 s') : Appends s action := by
  obtain ⟨_, _⟩ := action
  cases step_effect step with
  | initializeTransfers | setVerifier => exact trivial
  | @applied _ transfer _ _ currentRoot current _ _ initial accepted _ root =>
    have mem : transfer ∈ s'.accepted := by simp [accepted]
    constructor
    · have known : s.initial.isSome = true :=
        recorded.initialized.2 (recorded.started.1 (by rw [current]; rfl))
      obtain ⟨given, isInitial⟩ := Option.isSome_iff_exists.1 known
      have covered := after.root given (initial.trans isInitial)
      rw [root, accepted, foldedRoot_snoc] at covered
      have folded := Option.some.inj (current.symm.trans (before.root given isInitial))
      rw [← folded] at covered
      rw [current, nextRoot_injective free (inside currentRoot current)
        (Option.some.inj covered).symm]
    · intro update of _ stored
      obtain ⟨earlier, old, update', of', same⟩ := recorded.sourced _ _ stored
      have kept := before.notes earlier old update' of'
      have again := after.notes earlier (by simp [accepted, old]) update' of'
      have written := after.notes transfer mem update of
      rw [same] at kept again
      have unchanged := Option.mem_unique again written
      rw [← unchanged]
      exact Option.some.inj (Option.mem_def.1 stored ▸ kept)

theorem AppendOnly.empty : AppendOnly sha256 ({} : Traced Address) := ⟨nofun, nofun⟩

/-- In every run each nullifier is accepted at most once.  In a run whose transfers all append, the
current root covers the accepted transfers and the ciphertexts of accepted commitments stay.
Without collisions among the strings hashed, these are the only runs that keep this. -/
theorem roots_append_only (run : Run (Step sha256) {} actions s) :
    (s.accepted.map PrivateTransfer.nullifier).Nodup ∧
      (Run (Guarded Appends (Step sha256)) {} actions s → AppendOnly sha256 s) ∧
      ∀ S : Set Bytes, S.InjOn sha256 →
        (Run (Guarded Appends (Guarded (HashesIn sha256 S) (Step sha256))) {} actions s ↔
          Run (Into (AppendOnly sha256) (Guarded (HashesIn sha256 S) (Step sha256))) {}
            actions s) := by
  refine ⟨?_, fun appending => ?_, fun S free => ?_⟩
  · exact (run.invariant Recorded.empty fun _ _ _ => Recorded.step).distinct
  · refine (appending.into_of_guarded (P := AppendOnly sha256)
      ⟨Recorded.empty, AppendOnly.empty⟩ ?_ ?_).2.2
    · exact fun _ _ _ recorded step => recorded.step step
    · exact fun _ _ _ recorded before step => before.step recorded step
  · refine (Run.guarded_iff_into Recorded ⟨Recorded.empty, AppendOnly.empty⟩
      (fun _ _ _ recorded step => recorded.step step.2)
      fun _ _ _ recorded before step => ⟨fun after => ?_, fun appends => ?_⟩).2
    · exact appends_of_appendOnly free recorded before step.1 step.2 after
    · exact before.step recorded step.2 appends

def repeated (byte : UInt8) : Digest := ⟨List.replicate 32 byte, List.length_replicate⟩

def signed (call : Call ℕ) : Action ℕ := ⟨⟨fun _ => true, fun _ _ _ _ => true⟩, call⟩

/-- A transfer with commitments and ciphertexts made of single bytes. -/
def transferOf (oldRoot : Digest) (nullifier sender recipient note : UInt8) : PrivateTransfer :=
  ⟨oldRoot, repeated nullifier, ⟨repeated sender, [note]⟩, ⟨repeated recipient, [note]⟩⟩

/-- Two transfers, the second on the root that the first leaves. -/
def oneAfterTheOther : List (Action ℕ) :=
  let first := transferOf (repeated 1) 9 4 7 1
  let next := nextRootForTransfer Sha256.digest (repeated 1) first
  [signed (.initializeTransfers 0 1 (repeated 2) (repeated 1)),
    signed (.applyPrivateTransfer 2 first []),
    signed (.applyPrivateTransfer 3 (transferOf next 10 5 8 2) [])]

theorem oneAfterTheOther_appends :
    ∃ s : Traced ℕ, Run (Step Sha256.digest) {} oneAfterTheOther s ∧
      (s.accepted.map PrivateTransfer.nullifier).Nodup ∧ AppendOnly Sha256.digest s ∧
      s.accepted.length = 2 := by
  obtain ⟨s, appending, two⟩ : ∃ s : Traced ℕ, Run (Guarded Appends (Step Sha256.digest)) {}
      oneAfterTheOther s ∧ s.accepted.length = 2 :=
    exists_guarded_run (fun _ _ _ => id) (by decide +kernel)
  have run := appending.mono fun _ _ _ step => step.2
  obtain ⟨distinct, keeps, -⟩ := roots_append_only run
  exact ⟨s, run, distinct, keeps appending, two⟩

/-- Two transfers on the initial root; the second has a commitment of the first. -/
def bothOnTheInitialRoot : List (Action ℕ) :=
  [signed (.initializeTransfers 0 1 (repeated 2) (repeated 1)),
    signed (.applyPrivateTransfer 2 (transferOf (repeated 1) 9 4 7 1) []),
    signed (.applyPrivateTransfer 3 (transferOf (repeated 1) 10 4 8 2) [])]

/-- The root drops the first transfer, and the ciphertext of its commitment is replaced. -/
theorem second_transfer_drops_first :
    ∃ s : Traced ℕ, Run (Step Sha256.digest) {} bothOnTheInitialRoot s ∧
      s.initial = some (repeated 1) ∧
      s.world.currentRoot ≠ some (foldedRoot Sha256.digest (repeated 1) s.accepted) ∧
      s.world.currentRoot = some (nextRootForTransfer Sha256.digest (repeated 1)
        (transferOf (repeated 1) 10 4 8 2)) ∧
      s.accepted = [transferOf (repeated 1) 9 4 7 1, transferOf (repeated 1) 10 4 8 2] ∧
      encryptedNote s.world (repeated 4) = some [2] :=
  exists_run (fun _ _ _ => id) (by decide +kernel)

end PrivateTransfers
