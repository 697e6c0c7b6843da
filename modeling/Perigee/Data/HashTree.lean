import Mathlib

/-!
# Binary hash trees over digests

The leaves of a tree are digests, and an inner node is its two children combined.  A path of
siblings climbs from a digest to a root.  Leaves and inner nodes are values of one type, so a path
that reaches the root shows only what its directions lead to (`Position`).
-/

inductive HashTree (α : Type) where
  | leaf (digest : α)
  | node (left right : HashTree α)

namespace HashTree

variable {α : Type} (combine : α → α → α)

def root : HashTree α → α
  | leaf digest => digest
  | node left right => combine left.root right.root

def leaves : HashTree α → List α
  | leaf digest => [digest]
  | node left right => left.leaves ++ right.leaves

/-- The pairs that are combined in the tree. -/
def pairs : HashTree α → List (α × α)
  | leaf _ => []
  | node left right => (left.root combine, right.root combine) :: (left.pairs ++ right.pairs)

/-- From a root down, the directions end at a leaf; `true` goes to the right. -/
def LeadsToLeaf : HashTree α → List Bool → Prop
  | leaf _, directions => directions = []
  | node _ _, [] => False
  | node left right, direction :: directions =>
    if direction then right.LeadsToLeaf directions else left.LeadsToLeaf directions

/-! ## Paths of siblings -/

/-- A digest and its sibling in order; `true` puts the sibling on the left. -/
def pair (current : α) (step : α × Bool) : α × α :=
  if step.2 then (step.1, current) else (current, step.1)

def up (current : α) (step : α × Bool) : α :=
  combine (pair current step).1 (pair current step).2

/-- The digest that a path of siblings climbs to. -/
def climb (start : α) (path : List (α × Bool)) : α := path.foldl (up combine) start

/-- The pairs that are combined along a path. -/
def pathPairs : α → List (α × Bool) → List (α × α)
  | _, [] => []
  | current, step :: path => pair current step :: pathPairs (up combine current step) path

/-- The directions of a path, from the root down. -/
def directions (path : List (α × Bool)) : List Bool := (path.map Prod.snd).reverse

theorem pathPairs_concat (start : α) (path : List (α × Bool)) (last : α × Bool) :
    pathPairs combine start (path ++ [last]) =
      pathPairs combine start path ++ [pair (climb combine start path) last] := by
  induction path generalizing start with
  | nil => rfl
  | cons _ _ ih =>
    rw [List.cons_append, pathPairs, ih]
    rfl

theorem directions_concat (path : List (α × Bool)) (last : α × Bool) :
    directions (path ++ [last]) = last.2 :: directions path := by
  rw [directions, List.map_append, List.reverse_append]
  rfl

variable {combine}

/-- A path to the root of a tree whose directions lead to a leaf starts from that leaf, if the pairs
of the tree and of the path do not collide. -/
theorem start_mem_leaves {S : Set (α × α)} (free : S.InjOn fun p => combine p.1 p.2)
    (tree : HashTree α) {start : α} {path : List (α × Bool)}
    (inTree : ∀ p ∈ tree.pairs combine, p ∈ S) (inPath : ∀ p ∈ pathPairs combine start path, p ∈ S)
    (reaches : climb combine start path = tree.root combine)
    (leads : tree.LeadsToLeaf (directions path)) : start ∈ tree.leaves := by
  induction tree generalizing path with
  | leaf =>
    obtain rfl : path = [] := by simpa [LeadsToLeaf, directions] using leads
    exact List.mem_singleton.2 reaches
  | node left right ihLeft ihRight =>
    rcases List.eq_nil_or_concat' path with rfl | ⟨before, last, rfl⟩
    · exact leads.elim
    · -- The last step combines the two children, in the order that the direction says.
      rw [climb, List.foldl_append] at reaches
      change up combine (climb combine start before) last = _ at reaches
      rw [pathPairs_concat] at inPath
      rw [directions_concat, LeadsToLeaf] at leads
      have same := free (inPath _ (by simp)) (inTree _ List.mem_cons_self) reaches
      have below (p : α × α) (member : p ∈ pathPairs combine start before) : p ∈ S :=
        inPath p (List.mem_append_left _ member)
      unfold pair at same
      split_ifs at same leads with direction
      · have inRight (p : α × α) (member : p ∈ right.pairs combine) : p ∈ S :=
          inTree p (List.mem_cons_of_mem _ (List.mem_append_right _ member))
        exact List.mem_append_right _ (ihRight inRight below (Prod.mk.inj same).2 leads)
      · have inLeft (p : α × α) (member : p ∈ left.pairs combine) : p ∈ S :=
          inTree p (List.mem_cons_of_mem _ (List.mem_append_left _ member))
        exact List.mem_append_left _ (ihLeft inLeft below (Prod.mk.inj same).1 leads)

/-- A subtree with the siblings above it, from the subtree up. -/
inductive Position (combine : α → α → α) (tree : HashTree α) :
    HashTree α → List (α × Bool) → Prop
  | top : Position combine tree tree []
  | left {l r : HashTree α} {path : List (α × Bool)}
      (above : Position combine tree (node l r) path) :
      Position combine tree l ((r.root combine, false) :: path)
  | right {l r : HashTree α} {path : List (α × Bool)}
      (above : Position combine tree (node l r) path) :
      Position combine tree r ((l.root combine, true) :: path)

/-- The siblings above a subtree lead from its root to the root of the tree, be it a leaf or not. -/
theorem Position.climb {tree subtree : HashTree α} {path : List (α × Bool)}
    (position : Position combine tree subtree path) :
    climb combine (subtree.root combine) path = tree.root combine := by
  induction position with
  | top => rfl
  | left _ ih | right _ ih => exact ih

end HashTree
