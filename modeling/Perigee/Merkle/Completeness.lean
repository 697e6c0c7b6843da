import Perigee.Merkle.Soundness

/-!
# Generated proofs are accepted

The builder pairs the last node of an odd level with itself, and the prover takes a node without a
neighbour as its own sibling.  At every level the two agree, so the path of a leaf climbs to the
root.
-/

namespace Merkle

open Sha256 (Digest)

variable {sha256 : List UInt8 → Digest} {level : List Digest}

theorem length_buildLevels (levels : Level sha256 level) :
    (buildLevels sha256 level).length = Nat.clog 2 level.length + 1 := by
  induction levels with
  | one => simp [buildLevels_one]
  | more two _ ih =>
    rw [buildLevels_more two, List.length_cons, ih, length_nextLevel,
      Nat.clog_of_two_le (by decide) two]
    rfl

theorem headD_buildLevels (levels : Level sha256 level) :
    (buildLevels sha256 level).headD [] = level := by
  cases levels with
  | one => rfl
  | more two => rw [buildLevels_more two, List.headD_cons]

variable {tree₀ tree : MerkleTree} {leaves : List (List UInt8)}

theorem build_cases (sha256 : List UInt8 → Digest) (tree₀ : MerkleTree)
    (leaves : List (List UInt8)) :
    (∃ tree, tree₀.build sha256 leaves = (.ok (), tree)) ∨
      (leaves = [] ∨ maxLeaves tree₀.levels < leaves.length) ∧
        ∃ error, tree₀.build sha256 leaves = (.error error, tree₀) := by
  unfold MerkleTree.build
  split_ifs with empty above
  · exact .inr ⟨.inl (List.isEmpty_iff.1 empty), _, rfl⟩
  · exact .inr ⟨.inr above, _, rfl⟩
  · have nonempty : leaves.map (hashLeaf sha256) ≠ [] := by simpa using empty
    have root := climb_siblingPath (.of_ne_nil sha256 nonempty)
      (List.getElem?_eq_getElem (List.length_pos_iff.2 nonempty))
    unfold rootOf at root
    dsimp only
    rw [root]
    exact .inl ⟨_, rfl⟩

theorem generateProof_accepted (built : tree₀.build sha256 leaves = (.ok (), tree)) {i : ℕ}
    (lt : i < leaves.length) : ∃ proof, tree.generateProof i = .ok proof ∧
      leaves[i]? = some proof.leaf ∧ proof.proof.length = Nat.clog 2 leaves.length ∧
      proof.verify sha256 = true ∧ MerkleTree.verifyProof sha256 proof tree.root = true := by
  obtain ⟨nonempty, nodes, root, rfl, _⟩ := build_ok built
  have levels : Level sha256 (tree.dataLeaves.map sha256) :=
    .of_ne_nil sha256 (by simpa using nonempty)
  have leaf := List.getElem?_eq_getElem lt
  have own : (tree.dataLeaves.map sha256)[i]? = some (sha256 tree.dataLeaves[i]) := by
    rw [List.getElem?_map, leaf, Option.map_some]
  have reaches := climb_siblingPath levels own
  have first := headD_buildLevels levels
  have depth := length_buildLevels levels
  rw [← nodes, root, Option.some.injEq] at reaches
  rw [← nodes] at first
  rw [← nodes, List.length_map] at depth
  have some_level : ¬ tree.nodes.isEmpty := by
    intro none
    rw [List.isEmpty_iff.1 none] at depth
    simp at depth
  rw [MerkleTree.generateProof, if_neg some_level, if_neg (by omega), first,
    List.getD_eq_getElem?_getD, List.getD_eq_getElem?_getD, leaf, own]
  have accepted : ∀ proof : MerkleProof, proof.leafHash = sha256 proof.leaf →
      proof.leaf = tree.dataLeaves[i] → proof.proof = siblingPath tree.nodes i →
      climb sha256 (proof.start sha256) proof.proof = tree.root := by
    intro proof hash same path
    rw [Bound.start (.inr hash), same, path, reaches]
  refine ⟨_, rfl, rfl, ?_, decide_eq_true (accepted _ rfl rfl rfl),
    decide_eq_true (accepted _ rfl rfl rfl)⟩
  rw [length_siblingPath, depth, Nat.add_sub_cancel]

/-- A tree is built from every list of leaves within its capacity.  Each leaf then has a proof of
the depth of the tree, which both verifiers accept.  A failed build changes nothing. -/
theorem proofs_complete (sha256 : List UInt8 → Digest) (tree₀ : MerkleTree)
    (leaves : List (List UInt8)) :
    (leaves ≠ [] → leaves.length ≤ maxLeaves tree₀.levels →
      ∃ tree, tree₀.build sha256 leaves = (.ok (), tree) ∧ tree.leafCount = leaves.length ∧
        ∀ i < tree.leafCount, ∃ proof, tree.generateProof i = .ok proof ∧
          leaves[i]? = some proof.leaf ∧ proof.proof.length = Nat.clog 2 tree.leafCount ∧
          proof.verify sha256 = true ∧ MerkleTree.verifyProof sha256 proof tree.root = true) ∧
    ∀ error tree, tree₀.build sha256 leaves = (.error error, tree) → tree = tree₀ := by
  rcases build_cases sha256 tree₀ leaves with ⟨tree, built⟩ | ⟨rejected, error, failed⟩
  · have count := (build_ok built).2.2.2.2
    refine ⟨fun _ _ => ⟨tree, built, count, fun i lt => ?_⟩, fun _ _ failed => ?_⟩
    · rw [count] at lt ⊢
      exact generateProof_accepted built lt
    · rw [built] at failed
      exact nomatch (Prod.mk.inj failed).1
  · refine ⟨fun nonempty fits => ?_, fun _ _ h => ?_⟩
    · exact absurd rejected (not_or.2 ⟨nonempty, not_lt.2 fits⟩)
    · exact (Prod.mk.inj (h.symm.trans failed)).2

/-- The last of three leaves has a proof of length two. -/
theorem third_leaf_proved :
    ∃ tree proof, (MerkleTree.new 2).build Sha256.digest [alice, bob, solo] = (.ok (), tree) ∧
      tree.generateProof 2 = .ok proof ∧ proof.leaf = solo ∧ proof.proof.length = 2 ∧
      proof.verify Sha256.digest = true := by
  obtain ⟨tree, built, count, proofs⟩ := (proofs_complete Sha256.digest (MerkleTree.new 2)
    [alice, bob, solo]).1 (by decide) (by decide)
  obtain ⟨proof, generated, leaf, length, verified, -⟩ := proofs 2 (by rw [count]; decide)
  refine ⟨tree, proof, built, generated, (Option.some.inj leaf).symm, ?_, verified⟩
  rw [length, count]
  decide

end Merkle
