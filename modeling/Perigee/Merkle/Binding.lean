import Perigee.Merkle.Soundness

/-!
# What a root says about the leaves

The last node of an odd level is paired with itself, so the tree has copies of its last leaves.
Without collisions the root determines which leaves there are, but not how often each one occurs
(`root_binds`).
-/

namespace Merkle

open Sha256 (Digest)

/-! ## Leaves with their copies -/

section Blocks

variable {α : Type}

/-- The leaves under the nodes of the next level, from those under the nodes of a level. -/
def pairBlocks : List (List α) → List (List α)
  | [] => []
  | [left] => [left ++ left]
  | left :: right :: rest => (left ++ right) :: pairBlocks rest

/-- The leaves under the root, with a bound on the number of levels. -/
def coveredFrom : ℕ → List (List α) → List α
  | 0, blocks => blocks.flatten
  | bound + 1, blocks =>
    if blocks.length = 1 then blocks.flatten else coveredFrom bound (pairBlocks blocks)

/-- The leaves under the root with the copies that fill up odd levels. -/
def paddedLeaves (leaves : List α) : List α :=
  coveredFrom leaves.length (leaves.map fun leaf => [leaf])

/-- The copies. -/
def copies (leaves : List α) : List α := (paddedLeaves leaves).drop leaves.length

theorem flatten_pairBlocks (blocks : List (List α)) :
    ∃ more, (pairBlocks blocks).flatten = blocks.flatten ++ more ∧
      ∀ x ∈ more, x ∈ blocks.flatten := by
  induction blocks using pairBlocks.induct with
  | case1 => exact ⟨[], rfl, by simp⟩
  | case2 left => exact ⟨left, by simp [pairBlocks], by simp⟩
  | case3 _ _ _ ih =>
    obtain ⟨more, eq, mem⟩ := ih
    refine ⟨more, by simp [pairBlocks, eq], fun x hx => ?_⟩
    simp only [List.flatten_cons, List.mem_append]
    exact .inr (.inr (mem x hx))

theorem coveredFrom_eq (bound : ℕ) (blocks : List (List α)) :
    ∃ more, coveredFrom bound blocks = blocks.flatten ++ more ∧
      ∀ x ∈ more, x ∈ blocks.flatten := by
  induction bound generalizing blocks with
  | zero => exact ⟨[], (List.append_nil _).symm, by simp⟩
  | succ _ ih =>
    rw [coveredFrom]
    split_ifs
    · exact ⟨[], (List.append_nil _).symm, by simp⟩
    · obtain ⟨next, paired, old⟩ := flatten_pairBlocks blocks
      obtain ⟨more, eq, mem⟩ := ih (pairBlocks blocks)
      refine ⟨next ++ more, by rw [eq, paired, List.append_assoc], fun x hx => ?_⟩
      have among : x ∈ next ∨ x ∈ blocks.flatten := by
        rcases List.mem_append.1 hx with hx | hx
        · exact .inl hx
        · have := mem x hx
          rw [paired, List.mem_append] at this
          exact this.symm
      exact among.elim (old x) id

theorem flatten_singletons (leaves : List α) :
    (leaves.map fun leaf => [leaf]).flatten = leaves := by
  induction leaves with
  | nil => rfl
  | cons _ _ ih => simp [ih]

theorem paddedLeaves_eq (leaves : List α) :
    paddedLeaves leaves = leaves ++ copies leaves ∧ ∀ x ∈ copies leaves, x ∈ leaves := by
  obtain ⟨more, eq, mem⟩ := coveredFrom_eq leaves.length (leaves.map fun leaf => [leaf])
  rw [flatten_singletons] at eq mem
  have rest : copies leaves = more := by
    rw [copies, paddedLeaves, eq, List.drop_left]
  rw [rest]
  exact ⟨eq, mem⟩

theorem mem_paddedLeaves {leaves : List α} {x : α} : x ∈ paddedLeaves leaves ↔ x ∈ leaves := by
  obtain ⟨eq, mem⟩ := paddedLeaves_eq leaves
  rw [eq, List.mem_append]
  exact ⟨fun h => h.elim id (mem x), .inl⟩

end Blocks

/-! ## Hashes of full trees -/

section Hashing

variable {sha256 : List UInt8 → Digest} {S : Set (List UInt8)} {d d' : ℕ} {root : Digest}
  {xs ys : List (List UInt8)} {level : List Digest} {blocks : List (List (List UInt8))}

/-- The hash is the root of a full tree of the given depth over the leaves, all hashed from strings
of `S`. -/
inductive Commits (sha256 : List UInt8 → Digest) (S : Set (List UInt8)) :
    ℕ → Digest → List (List UInt8) → Prop
  | leaf {x : List UInt8} (mem : x ∈ S) : Commits sha256 S 0 (sha256 x) [x]
  | node {d : ℕ} {left right : Digest} {xs ys : List (List UInt8)} (mem : joined left right ∈ S) :
      Commits sha256 S d left xs → Commits sha256 S d right ys →
      Commits sha256 S (d + 1) (sha256 (joined left right)) (xs ++ ys)

theorem Commits.length (commits : Commits sha256 S d root xs) : xs.length = 2 ^ d := by
  induction commits with
  | leaf => rfl
  | node _ _ _ left right =>
    rw [List.length_append, left, right]
    ring

/-- Full trees with one root have the same depth and the same leaves. -/
theorem Commits.binds (free : S.InjOn sha256) (commits : Commits sha256 S d root xs)
    (commits' : Commits sha256 S d' root ys) (plain : ∀ x ∈ xs, ∀ a b, x ≠ joined a b)
    (plain' : ∀ y ∈ ys, ∀ a b, y ≠ joined a b) : d = d' ∧ xs.Perm ys := by
  induction commits generalizing d' ys with
  | @leaf x mem =>
    generalize same : sha256 x = root at commits'
    cases commits' with
    | leaf mem' =>
      rw [free mem mem' same]
      exact ⟨rfl, .rfl⟩
    | @node _ left right _ _ mem' =>
      exact absurd (free mem mem' same) (plain x (List.mem_singleton_self x) left right)
  | @node _ left right _ _ mem _ _ first second =>
    generalize same : sha256 (joined left right) = root at commits'
    cases commits' with
    | @leaf y mem' =>
      exact absurd (free mem mem' same).symm (plain' y (List.mem_singleton_self y) left right)
    | @node _ _ _ _ _ mem' commits₁ commits₂ =>
      obtain ⟨plain₁, plain₂⟩ := List.forall_mem_append.1 plain
      obtain ⟨plain₁', plain₂'⟩ := List.forall_mem_append.1 plain'
      -- the children are the same, perhaps in the other order
      rcases joined_inj (free mem mem' same) with ⟨rfl, rfl⟩ | ⟨rfl, rfl⟩
      · obtain ⟨rfl, perm₁⟩ := first commits₁ plain₁ plain₁'
        obtain ⟨-, perm₂⟩ := second commits₂ plain₂ plain₂'
        exact ⟨rfl, perm₁.append perm₂⟩
      · obtain ⟨rfl, perm₁⟩ := first commits₂ plain₁ plain₂'
        obtain ⟨-, perm₂⟩ := second commits₁ plain₂ plain₁'
        exact ⟨rfl, (perm₁.append perm₂).trans List.perm_append_comm⟩

/-! ## The root of the code's tree -/

theorem commits_next (commits : List.Forall₂ (Commits sha256 S d) level blocks)
    (strings : ∀ x ∈ pairStrings level, x ∈ S) :
    List.Forall₂ (Commits sha256 S (d + 1)) (nextLevel sha256 level) (pairBlocks blocks) := by
  induction level using pairStrings.induct generalizing blocks with
  | case1 =>
    cases commits
    exact .nil
  | case2 =>
    obtain ⟨block, _, own, none_left, rfl⟩ := List.forall₂_cons_left_iff.1 commits
    cases none_left
    rw [nextLevel, hashPair_eq]
    exact .cons (.node (strings _ (by simp [pairStrings])) own own) .nil
  | case3 _ _ _ ih =>
    obtain ⟨block, _, own, others, rfl⟩ := List.forall₂_cons_left_iff.1 commits
    obtain ⟨_, _, beside, further, rfl⟩ := List.forall₂_cons_left_iff.1 others
    rw [nextLevel, hashPair_eq]
    obtain ⟨here, above⟩ := List.forall_mem_cons.1 strings
    exact .cons (.node here own beside) (ih further above)

theorem commits_root (levels : Level sha256 level) {bound : ℕ} (short : level.length ≤ bound)
    (commits : List.Forall₂ (Commits sha256 S d) level blocks)
    (strings : ∀ x ∈ levelStrings (buildLevels sha256 level), x ∈ S)
    (top : rootOf (buildLevels sha256 level) = some root) :
    Commits sha256 S (d + ((buildLevels sha256 level).length - 1)) root
      (coveredFrom bound blocks) := by
  induction levels generalizing d bound blocks with
  | one hash =>
    obtain rfl : hash = root := Option.some.inj top
    obtain ⟨block, _, own, none_left, rfl⟩ := List.forall₂_cons_left_iff.1 commits
    cases none_left
    have covered : coveredFrom bound [block] = block := by
      cases bound <;> simp [coveredFrom]
    rw [covered]
    exact own
  | @more level two _ ih =>
    have length := commits.length_eq
    obtain ⟨bound, rfl⟩ : ∃ k, bound = k + 1 := ⟨bound - 1, by omega⟩
    rw [levelStrings_more two] at strings
    obtain ⟨pairs, above⟩ := List.forall_mem_append.1 strings
    rw [rootOf_more two] at top
    have pos := List.length_pos_iff.2 (buildLevels_ne_nil sha256 (nextLevel sha256 level))
    have next : Commits sha256 S
        (d + 1 + ((buildLevels sha256 (nextLevel sha256 level)).length - 1)) root
        (coveredFrom bound (pairBlocks blocks)) :=
      ih (by rw [length_nextLevel]; omega) (commits_next commits pairs) above top
    rw [coveredFrom, if_neg (by omega), buildLevels_more two]
    have depth : d + 1 + ((buildLevels sha256 (nextLevel sha256 level)).length - 1) =
        d + ((buildLevels sha256 (nextLevel sha256 level)).length + 1 - 1) := by omega
    rwa [depth] at next

/-- The strings that are hashed to build the tree. -/
def treeStrings (tree : MerkleTree) : List (List UInt8) :=
  tree.dataLeaves ++ levelStrings tree.nodes

variable {tree₀ tree tree₀' tree' : MerkleTree}

theorem commits_of_build (built : tree₀.build sha256 xs = (.ok (), tree))
    (strings : ∀ x ∈ treeStrings tree, x ∈ S) :
    Commits sha256 S (tree.nodes.length - 1) tree.root (paddedLeaves xs) := by
  obtain ⟨nonempty, nodes, root, rfl, -⟩ := build_ok built
  obtain ⟨leaves, above⟩ := List.forall_mem_append.1 strings
  rw [nodes] at root above ⊢
  have hashes : List.Forall₂ (Commits sha256 S 0) (tree.dataLeaves.map sha256)
      (tree.dataLeaves.map fun leaf => [leaf]) := by
    rw [List.forall₂_map_left_iff, List.forall₂_map_right_iff, List.forall₂_same]
    exact fun x mem => .leaf (leaves x mem)
  have short : (tree.dataLeaves.map sha256).length ≤ tree.dataLeaves.length := by
    rw [List.length_map]
  have commits := commits_root (.of_ne_nil sha256 (by simpa using nonempty)) short hashes above root
  rwa [Nat.zero_add] at commits

/-- Two trees with one root have the same depth and the same leaves with their copies.  So they have
the same set of leaves, and the same multiset exactly if their copies are the same; which is so if
neither repeats a leaf, or if both fill up all levels. -/
theorem root_binds (built : tree₀.build sha256 xs = (.ok (), tree))
    (built' : tree₀'.build sha256 ys = (.ok (), tree'))
    (free : Set.InjOn sha256 {x | x ∈ treeStrings tree ++ treeStrings tree'})
    (plain : ∀ x ∈ xs ++ ys, ∀ a b : Digest, x ≠ joined a b) (same : tree.root = tree'.root) :
    tree.nodes.length = tree'.nodes.length ∧ (∀ x, x ∈ xs ↔ x ∈ ys) ∧
      (xs.Perm ys ↔ (copies xs).Perm (copies ys)) ∧ (xs.Nodup → ys.Nodup → xs.Perm ys) ∧
      (xs.length = 2 ^ (tree.nodes.length - 1) → ys.length = xs.length → xs.Perm ys) := by
  have commits := commits_of_build built
    (S := {x | x ∈ treeStrings tree ++ treeStrings tree'}) fun x mem => List.mem_append_left _ mem
  have commits' := commits_of_build built'
    (S := {x | x ∈ treeStrings tree ++ treeStrings tree'}) fun x mem => List.mem_append_right _ mem
  rw [same] at commits
  obtain ⟨plain₁, plain₂⟩ := List.forall_mem_append.1 plain
  obtain ⟨depth, perm⟩ := commits.binds free commits'
    (fun x mem => plain₁ x (mem_paddedLeaves.1 mem)) fun y mem => plain₂ y (mem_paddedLeaves.1 mem)
  have members (x : List UInt8) : x ∈ xs ↔ x ∈ ys := by
    rw [← mem_paddedLeaves, perm.mem_iff, mem_paddedLeaves]
  have exactly : xs.Perm ys ↔ (copies xs).Perm (copies ys) := by
    rw [(paddedLeaves_eq xs).1, (paddedLeaves_eq ys).1] at perm
    constructor
    · intro leaves
      exact (List.perm_append_left_iff ys).1 ((leaves.symm.append_right _).trans perm)
    · intro copied
      exact (List.perm_append_right_iff (copies ys)).1 ((copied.symm.append_left _).trans perm)
  have nonempty (tree : MerkleTree) (h : rootOf tree.nodes = some tree.root) :
      0 < tree.nodes.length := by
    rw [List.length_pos_iff]
    rintro empty
    rw [empty] at h
    cases h
  refine ⟨?_, members, exactly, fun once once' => ?_, fun full length => ?_⟩
  · have pos := nonempty tree (build_ok built).2.2.1
    have pos' := nonempty tree' (build_ok built').2.2.1
    omega
  · exact (List.perm_ext_iff_of_nodup once once').2 members
  · have none_copied {zs : List (List UInt8)}
        (filled : zs.length = (paddedLeaves zs).length) : copies zs = [] := by
      rw [copies, List.drop_eq_nil_iff]
      exact filled.ge
    rw [exactly, none_copied (full.trans commits.length.symm),
      none_copied ((length.trans full).trans (depth ▸ commits'.length.symm))]

end Hashing

/-! ## Lists with one root -/

def carol : List UInt8 := [99, 97, 114, 111, 108]

theorem length_joined (a b : Digest) : (joined a b).length = 64 := by
  rcases joined_eq_or a b with eq | eq <;> rw [eq, List.length_append] <;> omega

theorem ne_joined {leaves : List (List UInt8)} (lengths : ∀ x ∈ leaves, x.length ≠ 64) :
    ∀ x ∈ leaves, ∀ a b : Digest, x ≠ joined a b := by
  rintro x mem a b rfl
  exact lengths _ mem (length_joined a b)

theorem swapped_leaves_bind :
    (built [alice, bob]).root = (built [bob, alice]).root ∧ [alice, bob].Perm [bob, alice] := by
  have same : (built [alice, bob]).root = (built [bob, alice]).root := by decide +kernel
  have plain : ∀ x ∈ [alice, bob] ++ [bob, alice], ∀ a b : Digest, x ≠ joined a b :=
    ne_joined (by decide)
  obtain ⟨-, -, -, once, -⟩ := @root_binds Sha256.digest [alice, bob] [bob, alice] (.new 32) _
    (.new 32) _ rfl rfl (by decide +kernel) plain same
  exact ⟨same, once (by decide) (by decide)⟩

/-- A list of three leaves has the root of the list that repeats its last leaf, and even lists of
one length can have one root, although no collision is involved and no leaf is two joined hashes. -/
theorem repeated_leaf_same_root :
    ((built [alice, bob, carol]).root = (built [alice, bob, carol, carol]).root ∧
      ¬ [alice, bob, carol].Perm [alice, bob, carol, carol] ∧
      Set.InjOn Sha256.digest {x | x ∈ treeStrings (built [alice, bob, carol]) ++
        treeStrings (built [alice, bob, carol, carol])}) ∧
    ((built [alice, alice, bob]).root = (built [bob, bob, alice]).root ∧
      ¬ [alice, alice, bob].Perm [bob, bob, alice] ∧
      Set.InjOn Sha256.digest {x | x ∈ treeStrings (built [alice, alice, bob]) ++
        treeStrings (built [bob, bob, alice])}) ∧
    ∀ x ∈ [alice, bob, carol], ∀ a b : Digest, x ≠ joined a b := by
  exact ⟨by decide +kernel, by decide +kernel, ne_joined (by decide)⟩

end Merkle
