import Perigee.Data.Sha256

/-!
# The Merkle tree

The tree of `core/src/merkle_tree.rs`.  Leaves are hashed once; the two children of an inner node
are sorted, joined and hashed, and the last node of a level with an odd number of nodes is paired
with itself.  The hash function is a parameter, to be read as SHA-256.
-/

namespace Merkle

open Sha256 (Digest)

structure ProofNode where
  hash : Digest
  isLeft : Bool
  deriving DecidableEq

structure MerkleProof where
  leafIndex : ℕ
  leaf : List UInt8
  leafHash : Digest
  root : Digest
  proof : List ProofNode

structure MerkleTree where
  root : Digest
  levels : ℕ
  leafCount : ℕ
  dataLeaves : List (List UInt8)
  nodes : List (List Digest)

def zeroHash : Digest := ⟨List.replicate 32 0, rfl⟩

def usizeMax : ℕ := 2 ^ 64 - 1

def MerkleTree.new (levels : ℕ) : MerkleTree :=
  { root := zeroHash, levels, leafCount := 0, dataLeaves := [], nodes := [] }

section Hashing

variable (sha256 : List UInt8 → Digest)

def hashLeaf (data : List UInt8) : Digest := sha256 data

def hashPair (left right : Digest) : Digest :=
  if left.1 ≤ right.1 then sha256 (left.1 ++ right.1) else sha256 (right.1 ++ left.1)

/-- The inner loop of `build_levels`. -/
def nextLevel : List Digest → List Digest
  | [] => []
  | [left] => [hashPair sha256 left left]
  | left :: right :: rest => hashPair sha256 left right :: nextLevel rest

/-- The outer loop of `build_levels`, with a bound on the number of levels. -/
def buildLevelsFrom : ℕ → List Digest → List (List Digest)
  | 0, level => [level]
  | bound + 1, level =>
    if level.length = 1 then [level] else level :: buildLevelsFrom bound (nextLevel sha256 level)

/-- `build_levels`, which is only called on a level that is not empty. -/
def buildLevels (leafHashes : List Digest) : List (List Digest) :=
  buildLevelsFrom sha256 leafHashes.length leafHashes

def maxLeaves (levels : ℕ) : ℕ := if 64 ≤ levels then usizeMax else 2 ^ levels

def MerkleTree.build (tree : MerkleTree) (leaves : List (List UInt8)) :
    Except String Unit × MerkleTree :=
  if leaves.isEmpty then (.error "Cannot build a Merkle tree from zero leaves.", tree)
  else if maxLeaves tree.levels < leaves.length then
    (.error "Leaf count exceeds configured tree capacity.", tree)
  else
    let nodes := buildLevels sha256 (leaves.map (hashLeaf sha256))
    match nodes.getLast?.bind List.head? with
    | none => (.error "Failed to calculate tree root.", { tree with nodes })
    | some root => (.ok (), { tree with nodes, root, dataLeaves := leaves,
                                        leafCount := leaves.length })

/-- The hash next to the node at `index`, or its own if it is the last of an odd level. -/
def sibling (level : List Digest) (index : ℕ) : Digest :=
  level.getD (if index % 2 = 0 then index + 1 else index - 1) (level.getD index zeroHash)

/-- The loop of `generate_proof` over the levels below the root. -/
def siblingPath : List (List Digest) → ℕ → List ProofNode
  | level :: above :: rest, index =>
    ⟨sibling level index, index % 2 = 0⟩ :: siblingPath (above :: rest) (index / 2)
  | _, _ => []

def MerkleTree.generateProof (tree : MerkleTree) (leafIndex : ℕ) : Except String MerkleProof :=
  if tree.nodes.isEmpty then .error "Cannot generate proof before building the tree."
  else if tree.leafCount ≤ leafIndex then .error "Leaf index is out of bounds."
  else .ok {
    leafIndex
    leaf := tree.dataLeaves.getD leafIndex []
    leafHash := (tree.nodes.headD []).getD leafIndex zeroHash
    root := tree.root
    proof := siblingPath tree.nodes leafIndex }

def MerkleProof.start (proof : MerkleProof) : Digest :=
  if proof.leafHash = zeroHash then hashLeaf sha256 proof.leaf else proof.leafHash

/-- The loop of verification over the path. -/
def climb (current : Digest) (path : List ProofNode) : Digest :=
  path.foldl (fun current node =>
    if node.isLeft then hashPair sha256 current node.hash
    else hashPair sha256 node.hash current) current

def MerkleProof.verify (proof : MerkleProof) : Bool :=
  decide (climb sha256 (proof.start sha256) proof.proof = proof.root)

def MerkleTree.verifyProof (proof : MerkleProof) (root : Digest) : Bool :=
  decide (climb sha256 (proof.start sha256) proof.proof = root)

end Hashing

/-! ## Joined hashes -/

/-- Two hashes, the smaller one first: the string that is hashed for an inner node. -/
def joined (left right : Digest) : List UInt8 :=
  if left.1 ≤ right.1 then left.1 ++ right.1 else right.1 ++ left.1

theorem joined_comm (left right : Digest) : joined left right = joined right left := by
  unfold joined
  split_ifs with h h' h'
  · rw [List.le_antisymm h h']
  · rfl
  · rfl
  · exact absurd (List.le_total left.1 right.1) (by tauto)

theorem joined_eq_or (left right : Digest) :
    joined left right = left.1 ++ right.1 ∨ joined left right = right.1 ++ left.1 := by
  unfold joined
  split_ifs <;> simp

theorem joined_inj {a b c d : Digest} (h : joined a b = joined c d) :
    (a = c ∧ b = d) ∨ (a = d ∧ b = c) := by
  have split {x y z w : Digest} (eq : x.1 ++ y.1 = z.1 ++ w.1) : x = z ∧ y = w := by
    obtain ⟨first, second⟩ := List.append_inj eq (x.2.trans z.2.symm)
    exact ⟨Subtype.ext first, Subtype.ext second⟩
  rcases joined_eq_or a b with ab | ab <;> rcases joined_eq_or c d with cd | cd <;>
    rw [ab, cd] at h <;> obtain ⟨first, second⟩ := split h
  exacts [.inl ⟨first, second⟩, .inr ⟨first, second⟩, .inr ⟨second, first⟩, .inl ⟨second, first⟩]

section Hashing

variable {sha256 : List UInt8 → Digest}

theorem hashPair_eq (left right : Digest) :
    hashPair sha256 left right = sha256 (joined left right) := by
  unfold hashPair joined
  split_ifs <;> rfl

@[simp] theorem climb_cons (start : Digest) (node : ProofNode) (path : List ProofNode) :
    climb sha256 start (node :: path) =
      climb sha256 (sha256 (joined start node.hash)) path := by
  rw [climb, List.foldl_cons]
  congr 1
  split_ifs
  · rw [hashPair_eq]
  · rw [hashPair_eq, joined_comm]

theorem climb_append (start : Digest) (below above : List ProofNode) :
    climb sha256 start (below ++ above) = climb sha256 (climb sha256 start below) above :=
  List.foldl_append

/-! ## Levels -/

theorem length_nextLevel (sha256 : List UInt8 → Digest) (level : List Digest) :
    (nextLevel sha256 level).length = (level.length + 1) / 2 := by
  induction level using nextLevel.induct with
  | case1 => rfl
  | case2 => simp [nextLevel]
  | case3 _ _ _ ih =>
    simp only [nextLevel, List.length_cons]
    omega

/-- The bound on the number of levels is never reached. -/
theorem buildLevelsFrom_eq {bound : ℕ} : ∀ (bound' : ℕ) {level : List Digest}, level ≠ [] →
    level.length ≤ bound → level.length ≤ bound' →
    buildLevelsFrom sha256 bound level = buildLevelsFrom sha256 bound' level := by
  induction bound with
  | zero =>
    intro bound' level nonempty short
    exact absurd (List.length_eq_zero_iff.1 (Nat.le_zero.1 short)) nonempty
  | succ _ ih =>
    intro bound' level nonempty short short'
    have pos := List.length_pos_iff.2 nonempty
    obtain ⟨bound', rfl⟩ := Nat.exists_eq_succ_of_ne_zero (pos.trans_le short').ne'
    rw [buildLevelsFrom, buildLevelsFrom]
    split_ifs with one
    · rfl
    · have length := length_nextLevel sha256 level
      have next : nextLevel sha256 level ≠ [] := List.length_pos_iff.1 (by omega)
      rw [ih bound' next (by omega) (by omega)]

theorem buildLevels_one (hash : Digest) : buildLevels sha256 [hash] = [[hash]] := rfl

theorem buildLevels_more {level : List Digest} (two : 2 ≤ level.length) :
    buildLevels sha256 level = level :: buildLevels sha256 (nextLevel sha256 level) := by
  have length := length_nextLevel sha256 level
  have next : nextLevel sha256 level ≠ [] := List.length_pos_iff.1 (by omega)
  obtain ⟨_, eq⟩ := Nat.exists_eq_add_of_le two
  rw [buildLevels, eq, Nat.add_comm, buildLevelsFrom, if_neg (by omega), buildLevels,
    buildLevelsFrom_eq (nextLevel sha256 level).length next (by omega) le_rfl]

/-- The levels of a tree, from the root down. -/
inductive Level (sha256 : List UInt8 → Digest) : List Digest → Prop
  | one (hash : Digest) : Level sha256 [hash]
  | more {level : List Digest} (two : 2 ≤ level.length) :
      Level sha256 (nextLevel sha256 level) → Level sha256 level

theorem Level.of_ne_nil (sha256 : List UInt8 → Digest) {level : List Digest}
    (nonempty : level ≠ []) :
    Level sha256 level := by
  induction n : level.length using Nat.strong_induction_on generalizing level with
  | h n ih =>
    have length := length_nextLevel sha256 level
    have pos := List.length_pos_iff.2 nonempty
    by_cases two : 2 ≤ level.length
    · exact .more two (ih _ (by omega) (List.length_pos_iff.1 (by omega)) rfl)
    · obtain ⟨hash, rfl⟩ := List.length_eq_one_iff.1 (by omega : level.length = 1)
      exact .one hash

end Hashing

end Merkle
