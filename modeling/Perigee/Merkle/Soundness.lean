import Perigee.Merkle.Tree

/-!
# What an accepted proof shows

Without collisions a path of siblings that leads to the root starts from the hash of a node of the
tree, or goes on below a leaf that is itself two joined hashes.  But verification neither asks how
long the path is nor, unless `leaf_hash` is zero, whether the hash it starts from belongs to the
payload, so every tree has accepted proofs of other payloads.
-/

namespace Merkle

open Sha256 (Digest)

/-! ## Pairs of a level -/

/-- The strings that are hashed to make the next level. -/
def pairStrings : List Digest → List (List UInt8)
  | [] => []
  | [left] => [joined left left]
  | left :: right :: rest => joined left right :: pairStrings rest

theorem sibling_add_two (left right : Digest) (rest : List Digest) (i : ℕ) :
    sibling (left :: right :: rest) (i + 2) = sibling rest i := by
  unfold sibling
  rw [Nat.add_mod_right]
  split_ifs with even
  · rfl
  · obtain ⟨k, rfl⟩ : ∃ k, i = k + 1 := ⟨i - 1, by omega⟩
    rfl

theorem pairStrings_getElem? (level : List Digest) :
    ∀ {i : ℕ} {node : Digest}, level[i]? = some node →
      (pairStrings level)[i / 2]? = some (joined node (sibling level i)) := by
  induction level using pairStrings.induct with
  | case1 => simp
  | case2 left =>
    intro i node h
    obtain ⟨rfl, rfl⟩ : i = 0 ∧ left = node := by
      rcases i with _ | i
      · simpa using h
      · simp at h
    rfl
  | case3 left right _ ih =>
    intro i node h
    match i, h with
    | 0, h =>
      obtain rfl : left = node := by simpa using h
      rfl
    | 1, h =>
      obtain rfl : right = node := by simpa using h
      exact congrArg some (joined_comm left right)
    | i + 2, h =>
      rw [sibling_add_two, Nat.add_div_right i (by decide), pairStrings]
      exact ih (by simpa using h)

/-- Two hashes that are joined somewhere in a level are nodes of it. -/
theorem mem_of_joined_mem {level : List Digest} {a b : Digest}
    (h : joined a b ∈ pairStrings level) : a ∈ level := by
  induction level using pairStrings.induct with
  | case1 => cases h
  | case2 left =>
    rcases joined_inj (List.mem_singleton.1 h) with ⟨rfl, -⟩ | ⟨rfl, -⟩ <;> simp
  | case3 left right _ ih =>
    rcases List.mem_cons.1 h with here | later
    · rcases joined_inj here with ⟨rfl, -⟩ | ⟨rfl, -⟩ <;> simp
    · simp [ih later]

theorem exists_joined {level : List Digest} {x : List UInt8} (h : x ∈ pairStrings level) :
    ∃ a b, x = joined a b := by
  induction level using pairStrings.induct with
  | case1 => cases h
  | case2 left => exact ⟨left, left, List.mem_singleton.1 h⟩
  | case3 left right _ ih =>
    rcases List.mem_cons.1 h with here | later
    · exact ⟨left, right, here⟩
    · exact ih later

/-! ## Levels and their strings -/

section Hashing

variable {sha256 : List UInt8 → Digest} {level : List Digest}

theorem nextLevel_eq (level : List Digest) :
    nextLevel sha256 level = (pairStrings level).map sha256 := by
  induction level using pairStrings.induct with
  | case1 => rfl
  | case2 => simp [nextLevel, pairStrings, hashPair_eq]
  | case3 _ _ _ ih => simp [nextLevel, pairStrings, hashPair_eq, ih]

def levelStrings (levels : List (List Digest)) : List (List UInt8) :=
  levels.dropLast.flatMap pairStrings

def pathStrings (sha256 : List UInt8 → Digest) : Digest → List ProofNode → List (List UInt8)
  | _, [] => []
  | current, node :: path =>
    joined current node.hash :: pathStrings sha256 (sha256 (joined current node.hash)) path

theorem pathStrings_append (start : Digest) (below above : List ProofNode) :
    pathStrings sha256 start (below ++ above) =
      pathStrings sha256 start below ++ pathStrings sha256 (climb sha256 start below) above := by
  induction below generalizing start with
  | nil => rfl
  | cons _ _ ih => simp [pathStrings, ih]

def rootOf (levels : List (List Digest)) : Option Digest := levels.getLast?.bind List.head?

theorem buildLevels_ne_nil (sha256 : List UInt8 → Digest) (level : List Digest) :
    buildLevels sha256 level ≠ [] := by
  unfold buildLevels
  cases level.length with
  | zero => simp [buildLevelsFrom]
  | succ =>
    rw [buildLevelsFrom]
    split_ifs <;> simp

theorem rootOf_more (two : 2 ≤ level.length) :
    rootOf (buildLevels sha256 level) = rootOf (buildLevels sha256 (nextLevel sha256 level)) := by
  rw [buildLevels_more two, rootOf, rootOf, List.getLast?_cons_of_ne_nil (buildLevels_ne_nil _ _)]

theorem levelStrings_more (two : 2 ≤ level.length) :
    levelStrings (buildLevels sha256 level) =
      pairStrings level ++ levelStrings (buildLevels sha256 (nextLevel sha256 level)) := by
  rw [buildLevels_more two, levelStrings, levelStrings,
    List.dropLast_cons_of_ne_nil (buildLevels_ne_nil _ _), List.flatMap_cons]

theorem siblingPath_more (two : 2 ≤ level.length) (i : ℕ) :
    siblingPath (buildLevels sha256 level) i = ⟨sibling level i, i % 2 = 0⟩ ::
      siblingPath (buildLevels sha256 (nextLevel sha256 level)) (i / 2) := by
  rw [buildLevels_more two]
  rcases h : buildLevels sha256 (nextLevel sha256 level) with _ | ⟨_, _⟩
  · exact absurd h (buildLevels_ne_nil _ _)
  · rfl

theorem length_siblingPath (levels : List (List Digest)) (i : ℕ) :
    (siblingPath levels i).length = levels.length - 1 := by
  induction levels generalizing i with
  | nil => rfl
  | cons _ above ih =>
    rcases above with _ | ⟨_, _⟩
    · rfl
    · rw [siblingPath, List.length_cons, ih]
      simp

/-- The path of a node climbs to the root. -/
theorem climb_siblingPath (levels : Level sha256 level) {i : ℕ} {node : Digest}
    (own : level[i]? = some node) : rootOf (buildLevels sha256 level) =
      some (climb sha256 node (siblingPath (buildLevels sha256 level) i)) := by
  induction levels generalizing i node with
  | one hash =>
    obtain ⟨rfl, rfl⟩ : i = 0 ∧ hash = node := by
      rcases i with _ | i
      · simpa using own
      · simp at own
    rfl
  | @more level two _ ih =>
    have parent : (nextLevel sha256 level)[i / 2]? =
        some (sha256 (joined node (sibling level i))) := by
      rw [nextLevel_eq, List.getElem?_map, pairStrings_getElem? level own, Option.map_some]
    rw [rootOf_more two, siblingPath_more two, climb_cons, ih parent]

/-- A path of full length that leads to the root starts from a node of the level. -/
theorem mem_of_climb {S : Set (List UInt8)} (free : S.InjOn sha256) {start : Digest}
    {path : List ProofNode} (levels : Level sha256 level)
    (strings : ∀ x ∈ levelStrings (buildLevels sha256 level), x ∈ S)
    (onPath : ∀ x ∈ pathStrings sha256 start path, x ∈ S)
    (length : path.length + 1 = (buildLevels sha256 level).length)
    (reaches : rootOf (buildLevels sha256 level) = some (climb sha256 start path)) :
    start ∈ level := by
  induction levels generalizing start path with
  | one hash =>
    obtain rfl : path = [] := by simpa [buildLevels_one] using length
    exact List.mem_singleton.2 (Option.some.inj reaches).symm
  | @more level two _ ih =>
    rw [rootOf_more two] at reaches
    rw [levelStrings_more two] at strings
    obtain ⟨pairs, above⟩ := List.forall_mem_append.1 strings
    rw [buildLevels_more two, List.length_cons, Nat.add_right_cancel_iff] at length
    have pos := List.length_pos_iff.2 (buildLevels_ne_nil sha256 (nextLevel sha256 level))
    obtain ⟨node, path, rfl⟩ := List.exists_cons_of_length_pos (length ▸ pos)
    obtain ⟨first, rest⟩ := List.forall_mem_cons.1 onPath
    have parent := ih above rest length (by rwa [climb_cons] at reaches)
    rw [nextLevel_eq] at parent
    obtain ⟨pair, mem, eq⟩ := List.mem_map.1 parent
    -- the parent's string can only be the one that the path has joined
    have joins : pair = joined start node.hash := free (pairs _ mem) first eq
    exact mem_of_joined_mem (joins ▸ mem)

/-- A path that is not longer starts from a node of the level, or from the hash of a string that is
hashed above it. -/
theorem string_of_climb {S : Set (List UInt8)} (free : S.InjOn sha256) {start : Digest}
    {path : List ProofNode} (levels : Level sha256 level)
    (strings : ∀ x ∈ levelStrings (buildLevels sha256 level), x ∈ S)
    (onPath : ∀ x ∈ pathStrings sha256 start path, x ∈ S)
    (short : path.length < (buildLevels sha256 level).length)
    (reaches : rootOf (buildLevels sha256 level) = some (climb sha256 start path)) :
    start ∈ level ∨ ∃ x ∈ levelStrings (buildLevels sha256 level), sha256 x = start := by
  induction levels with
  | one hash =>
    have full : path.length + 1 = (buildLevels sha256 [hash]).length := by
      rw [buildLevels_one, List.length_singleton] at *
      omega
    exact .inl (mem_of_climb free (.one hash) strings onPath full reaches)
  | @more level two levels ih =>
    by_cases full : path.length + 1 = (buildLevels sha256 level).length
    · exact .inl (mem_of_climb free (.more two levels) strings onPath full reaches)
    · right
      rw [rootOf_more two] at reaches
      rw [levelStrings_more two] at strings ⊢
      rw [buildLevels_more two, List.length_cons] at short full
      obtain ⟨-, above⟩ := List.forall_mem_append.1 strings
      rcases ih above (by omega) reaches with node | ⟨x, mem, eq⟩
      · rw [nextLevel_eq] at node
        obtain ⟨pair, mem, eq⟩ := List.mem_map.1 node
        exact ⟨pair, List.mem_append_left _ mem, eq⟩
      · exact ⟨x, List.mem_append_right _ mem, eq⟩

/-! ## Accepted proofs -/

/-- Two joined hashes, as they are hashed for an inner node. -/
def IsJoin (x : List UInt8) : Prop := ∃ a b : Digest, x = joined a b

/-- The strings that are hashed to build the tree and to verify the proof, with the payload. -/
def involved (sha256 : List UInt8 → Digest) (tree : MerkleTree) (proof : MerkleProof) :
    List (List UInt8) :=
  proof.leaf :: tree.dataLeaves ++ levelStrings tree.nodes ++
    pathStrings sha256 (proof.start sha256) proof.proof

/-- The hash of the proof is that of its payload, or is left to the verifier. -/
def Bound (sha256 : List UInt8 → Digest) (proof : MerkleProof) : Prop :=
  proof.leafHash = zeroHash ∨ proof.leafHash = hashLeaf sha256 proof.leaf

theorem Bound.start {proof : MerkleProof} (bound : Bound sha256 proof) :
    proof.start sha256 = sha256 proof.leaf := by
  unfold MerkleProof.start
  split_ifs with zero
  · rfl
  · exact bound.resolve_left zero

variable {tree₀ tree : MerkleTree} {leaves : List (List UInt8)}

theorem build_ok (built : tree₀.build sha256 leaves = (.ok (), tree)) :
    leaves ≠ [] ∧ tree.nodes = buildLevels sha256 (leaves.map sha256) ∧
      rootOf tree.nodes = some tree.root ∧ tree.dataLeaves = leaves ∧
      tree.leafCount = leaves.length := by
  unfold MerkleTree.build at built
  split_ifs at built with empty
  · simp at built
  · simp at built
  · dsimp only at built
    split at built
    · simp at built
    · next root eq =>
      obtain rfl := (Prod.mk.inj built).2
      exact ⟨mt List.isEmpty_iff.2 empty, rfl, eq, rfl, rfl⟩

/-- A tree with a set of strings on which the hash function has no collisions. -/
structure Hashed (sha256 : List UInt8 → Digest) (tree : MerkleTree) (S : Set (List UInt8)) :
    Prop where
  free : S.InjOn sha256
  levels : Level sha256 (tree.dataLeaves.map sha256)
  nodes : tree.nodes = buildLevels sha256 (tree.dataLeaves.map sha256)
  root : rootOf tree.nodes = some tree.root
  leaves : ∀ x ∈ tree.dataLeaves, x ∈ S
  strings : ∀ x ∈ levelStrings tree.nodes, x ∈ S

namespace Hashed

variable {S : Set (List UInt8)} {start : Digest} {path : List ProofNode}

theorem mem_leaves (hashed : Hashed sha256 tree S) {x : List UInt8} (mem : x ∈ S)
    (node : sha256 x ∈ tree.dataLeaves.map sha256) : x ∈ tree.dataLeaves := by
  obtain ⟨leaf, there, eq⟩ := List.mem_map.1 node
  exact hashed.free (hashed.leaves leaf there) mem eq ▸ there

/-- A path of the depth of the tree leads to the root only from a leaf. -/
theorem leaf_of_climb (hashed : Hashed sha256 tree S) {x : List UInt8} (mem : x ∈ S)
    (onPath : ∀ y ∈ pathStrings sha256 (sha256 x) path, y ∈ S)
    (length : path.length + 1 = tree.nodes.length)
    (reaches : climb sha256 (sha256 x) path = tree.root) : x ∈ tree.dataLeaves := by
  have root := hashed.root
  have strings := hashed.strings
  rw [hashed.nodes] at root strings length
  exact hashed.mem_leaves mem
    (mem_of_climb hashed.free hashed.levels strings onPath length (reaches ▸ root))

/-- Where no leaf joins two hashes, a string that does not can only be a leaf. -/
theorem leaf_of_plain (hashed : Hashed sha256 tree S) {x : List UInt8} (mem : x ∈ S)
    (onPath : ∀ y ∈ pathStrings sha256 (sha256 x) path, y ∈ S) (plain : ¬ IsJoin x)
    (leaves : ∀ leaf ∈ tree.dataLeaves, ¬ IsJoin leaf)
    (reaches : climb sha256 (sha256 x) path = tree.root) : x ∈ tree.dataLeaves := by
  by_cases short : path.length < tree.nodes.length
  · have root := hashed.root
    have strings := hashed.strings
    rw [hashed.nodes] at root strings short
    rcases string_of_climb hashed.free hashed.levels strings onPath short (reaches ▸ root) with
      node | ⟨y, above, eq⟩
    · exact hashed.mem_leaves mem node
    · obtain rfl := hashed.free (strings y above) mem eq
      obtain ⟨level, -, pair⟩ := List.mem_flatMap.1 above
      exact absurd (exists_joined pair) plain
  · -- the part of the path below the leaves, and the node where it enters the tree
    have pos : 0 < tree.nodes.length := by
      rw [hashed.nodes]
      exact List.length_pos_iff.2 (buildLevels_ne_nil _ _)
    obtain ⟨below, node, above, rfl, length⟩ : ∃ below node above,
        path = below ++ node :: above ∧ above.length + 1 = tree.nodes.length := by
      have lt : path.length - tree.nodes.length < path.length := by omega
      refine ⟨path.take (path.length - tree.nodes.length),
        path.get ⟨path.length - tree.nodes.length, lt⟩,
        path.drop (path.length - tree.nodes.length + 1), ?_, ?_⟩
      · rw [List.get_eq_getElem, List.getElem_cons_drop, List.take_append_drop]
      · rw [List.length_drop]
        omega
    rw [pathStrings_append] at onPath
    obtain ⟨joins, rest⟩ := List.forall_mem_cons.1 (List.forall_mem_append.1 onPath).2
    rw [climb_append, climb_cons] at reaches
    exact absurd ⟨_, _, rfl⟩ (leaves _ (hashed.leaf_of_climb joins rest length reaches))

end Hashed

theorem hashed_of_build (built : tree₀.build sha256 leaves = (.ok (), tree)) {proof : MerkleProof}
    (free : Set.InjOn sha256 {x | x ∈ involved sha256 tree proof}) :
    Hashed sha256 tree {x | x ∈ involved sha256 tree proof} := by
  obtain ⟨nonempty, nodes, root, rfl, -⟩ := build_ok built
  refine ⟨free, .of_ne_nil sha256 (by simpa using nonempty), nodes, root, fun x mem => ?_,
    fun x mem => ?_⟩
  · simp [involved, mem]
  · simp [involved, mem]

/-- The generated path of a leaf is accepted with its hash and any payload. -/
theorem exists_other_payload (built : tree₀.build sha256 leaves = (.ok (), tree))
    {leaf : List UInt8} (mem : leaf ∈ leaves) (nonzero : sha256 leaf ≠ zeroHash)
    (payload : List UInt8) :
    ∃ proof : MerkleProof, proof.leaf = payload ∧ proof.proof.length + 1 = tree.nodes.length ∧
      MerkleTree.verifyProof sha256 proof tree.root = true := by
  obtain ⟨nonempty, nodes, root, rfl, -⟩ := build_ok built
  obtain ⟨i, own⟩ := List.mem_iff_getElem?.1 (List.mem_map_of_mem (f := sha256) mem)
  have reaches := climb_siblingPath (.of_ne_nil sha256 (by simpa using nonempty)) own
  rw [← nodes, root, Option.some.injEq] at reaches
  have pos : 0 < tree.nodes.length := by
    rw [nodes]
    exact List.length_pos_iff.2 (buildLevels_ne_nil _ _)
  refine ⟨⟨i, payload, sha256 leaf, tree.root, siblingPath tree.nodes i⟩, rfl, ?_, ?_⟩
  · rw [length_siblingPath]
    omega
  · rw [MerkleTree.verifyProof, decide_eq_true_iff, MerkleProof.start, if_neg nonzero]
    exact reaches.symm

/-- The node above the first two leaves is accepted as a leaf, with a path that is one shorter. -/
theorem exists_joined_payload (built : tree₀.build sha256 leaves = (.ok (), tree))
    (two : 2 ≤ leaves.length) :
    ∃ proof : MerkleProof, Bound sha256 proof ∧ IsJoin proof.leaf ∧
      proof.proof.length + 2 = tree.nodes.length ∧
      MerkleTree.verifyProof sha256 proof tree.root = true := by
  obtain ⟨nonempty, nodes, root, rfl, -⟩ := build_ok built
  have two : 2 ≤ (tree.dataLeaves.map sha256).length := by rwa [List.length_map]
  generalize tree.dataLeaves.map sha256 = level at nodes two
  obtain ⟨left, right, rest, rfl⟩ : ∃ left right rest, level = left :: right :: rest := by
    match level, two with
    | left :: right :: rest, _ => exact ⟨left, right, rest, rfl⟩
  have parent : (nextLevel sha256 (left :: right :: rest))[0]? =
      some (sha256 (joined left right)) := by
    rw [nextLevel, List.getElem?_cons_zero, hashPair_eq]
  have reaches := climb_siblingPath (.of_ne_nil sha256 (by simp [nextLevel])) parent
  rw [← rootOf_more two, ← nodes, root, Option.some.injEq] at reaches
  rw [buildLevels_more two] at nodes
  have pos := List.length_pos_iff.2 (buildLevels_ne_nil sha256
    (nextLevel sha256 (left :: right :: rest)))
  generalize buildLevels sha256 (nextLevel sha256 (left :: right :: rest)) = above at *
  refine ⟨⟨0, joined left right, zeroHash, tree.root, siblingPath above 0⟩, .inl rfl,
    ⟨left, right, rfl⟩, ?_, ?_⟩
  · rw [length_siblingPath, nodes, List.length_cons]
    omega
  · rw [MerkleTree.verifyProof, decide_eq_true_iff, MerkleProof.start, if_pos rfl]
    exact reaches.symm

/-- **An accepted proof is of a leaf** if its hash is that of its payload, and its path has the
depth of the tree or neither the payload nor a leaf joins two hashes.  Without the first condition
every payload has an accepted proof, and without the second a joined one has. -/
theorem verify_proof_sound (built : tree₀.build sha256 leaves = (.ok (), tree)) :
    (∀ proof : MerkleProof, Set.InjOn sha256 {x | x ∈ involved sha256 tree proof} →
      Bound sha256 proof →
      (proof.proof.length + 1 = tree.nodes.length ∨
        ¬ IsJoin proof.leaf ∧ ∀ leaf ∈ leaves, ¬ IsJoin leaf) →
      MerkleTree.verifyProof sha256 proof tree.root = true → proof.leaf ∈ leaves) ∧
    (∀ leaf ∈ leaves, sha256 leaf ≠ zeroHash → ∀ payload, ∃ proof : MerkleProof,
      proof.leaf = payload ∧ proof.proof.length + 1 = tree.nodes.length ∧
      MerkleTree.verifyProof sha256 proof tree.root = true) ∧
    (2 ≤ leaves.length → ∃ proof : MerkleProof, Bound sha256 proof ∧ IsJoin proof.leaf ∧
      proof.proof.length + 2 = tree.nodes.length ∧
      MerkleTree.verifyProof sha256 proof tree.root = true) := by
  refine ⟨fun proof free bound depth accepted => ?_,
    fun leaf mem nonzero => exists_other_payload built mem nonzero, exists_joined_payload built⟩
  have hashed := hashed_of_build built free
  obtain ⟨-, -, -, rfl, -⟩ := build_ok built
  have reaches := of_decide_eq_true accepted
  rw [bound.start] at reaches
  have payload : proof.leaf ∈ {x | x ∈ involved sha256 tree proof} := by simp [involved]
  have onPath : ∀ x ∈ pathStrings sha256 (sha256 proof.leaf) proof.proof,
      x ∈ {x | x ∈ involved sha256 tree proof} := fun x mem => by
    simp [involved, bound.start, mem]
  rcases depth with full | ⟨plain, leaves⟩
  · exact hashed.leaf_of_climb payload onPath full reaches
  · exact hashed.leaf_of_plain payload onPath plain leaves reaches

end Hashing

/-! ## Proofs with another payload -/

/-- Whether a function has collisions on a list is decided by comparing its values. -/
instance decidableInjOn {α β : Type} [DecidableEq α] [DecidableEq β] (f : α → β) (l : List α) :
    Decidable (Set.InjOn f {x | x ∈ l}) :=
  inferInstanceAs (Decidable (∀ x ∈ l, ∀ y ∈ l, f x = f y → x = y))

def built (leaves : List (List UInt8)) : MerkleTree :=
  ((MerkleTree.new 32).build Sha256.digest leaves).2

def solo : List UInt8 := [115, 111, 108, 111]

def forged : List UInt8 := [102, 111, 114, 103, 101, 100]

def alice : List UInt8 := [97, 108, 105, 99, 101]

def bob : List UInt8 := [98, 111, 98]

/-- The generated proof of the second of two leaves. -/
def bobProof : MerkleProof where
  leafIndex := 1
  leaf := bob
  leafHash := Sha256.digest bob
  root := (built [alice, bob]).root
  proof := siblingPath (built [alice, bob]).nodes 1

theorem bob_proof_sound :
    MerkleTree.verifyProof Sha256.digest bobProof (built [alice, bob]).root = true ∧
      bobProof.leaf ∈ [alice, bob] ∧
      ∃ proof : MerkleProof, proof.leaf = solo ∧
        MerkleTree.verifyProof Sha256.digest proof (built [alice, bob]).root = true := by
  obtain ⟨sound, other, -⟩ := @verify_proof_sound Sha256.digest (.new 32) _ [alice, bob] rfl
  have accepted : MerkleTree.verifyProof Sha256.digest bobProof (built [alice, bob]).root =
      true := by decide +kernel
  obtain ⟨proof, payload, -, accepted'⟩ := other bob (by simp) (by decide +kernel) solo
  have mem := sound bobProof (by decide +kernel) (.inr rfl) (.inl (by decide +kernel)) accepted
  exact ⟨accepted, mem, proof, payload, accepted'⟩

/-- The hash of the only leaf, with another payload. -/
def forgedProof : MerkleProof where
  leafIndex := 0
  leaf := forged
  leafHash := Sha256.digest solo
  root := (built [solo]).root
  proof := []

/-- The two joined leaf hashes, given as the payload of a proof without a path. -/
def innerProof : MerkleProof where
  leafIndex := 0
  leaf := joined (Sha256.digest alice) (Sha256.digest bob)
  leafHash := zeroHash
  root := (built [alice, bob]).root
  proof := []

/-- Both are accepted, although neither payload is a leaf and no collision is involved. -/
theorem forged_proof_accepted :
    (MerkleTree.verifyProof Sha256.digest forgedProof (built [solo]).root = true ∧
      forgedProof.leaf ∉ [solo] ∧
      Set.InjOn Sha256.digest {x | x ∈ involved Sha256.digest (built [solo]) forgedProof}) ∧
    (MerkleTree.verifyProof Sha256.digest innerProof (built [alice, bob]).root = true ∧
      innerProof.leaf ∉ [alice, bob] ∧
      Set.InjOn Sha256.digest
        {x | x ∈ involved Sha256.digest (built [alice, bob]) innerProof}) := by
  decide +kernel

end Merkle
