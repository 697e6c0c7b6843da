import Perigee.CrossChainVerifier.Effects
import Perigee.Data.HashTree

/-!
# Inclusion proofs

A proof is checked by climbing from a digest to the posted root, with flags that the caller chooses,
and the nonce that is consumed is an argument of its own.  So inner nodes are accepted as leaves,
and a leaf is accepted again under another nonce.
-/

namespace CrossChainVerifier

open Soroban
open Sha256 (Digest)
open Wire
open HashTree (Position pathPairs)

variable {Address : Type} {crypto : Crypto} {w w' : World Address} {call : Call Address}
  {events : List Event} {strings : Set Bytes} {c : Consumption}

/-! ## Climbing -/

/-- An inner node of a tree. -/
def join (crypto : Crypto) (left right : Digest) : Digest := crypto.sha256 (left.1 ++ right.1)

def joinedString (pair : Digest × Digest) : Bytes := pair.1.1 ++ pair.2.1

theorem hashSibling_eq : hashSibling crypto = HashTree.up (join crypto) := by
  funext current step
  unfold hashSibling HashTree.up HashTree.pair
  split_ifs <;> rfl

theorem joinedString_injective : Function.Injective joinedString := by
  rintro ⟨left, _⟩ ⟨left', _⟩ same
  obtain ⟨first, second⟩ := List.append_inj same (left.2.trans left'.2.symm)
  exact Prod.ext (Subtype.ext first) (Subtype.ext second)

theorem join_injOn (free : strings.InjOn crypto.sha256) :
    Set.InjOn (fun pair : Digest × Digest => join crypto pair.1 pair.2)
      (Set.preimage joinedString strings) := by
  intro pair member _ member' same
  exact joinedString_injective (free member member' same)

/-! ## Consumed leaves -/

def Event.consumption : Event → Option Consumption
  | .consumed consumption => some consumption
  | _ => none

def consumptions (log : List Event) : List Consumption := log.filterMap Event.consumption

@[simp] theorem consumptions_append (log events : List Event) :
    consumptions (log ++ events) = consumptions log ++ consumptions events :=
  List.filterMap_append

/-- The flags of a call lead to a leaf of the tree that was posted, and its nonce is the one of the
leaf. -/
def Proper (nonceOf : UInt32 → Digest → UInt64) (tree : UInt32 → Digest → HashTree Digest)
    (s : Traced Address) : Action Address → Prop
  | .call _ (.verifyMessageAndConsume blockHeight nonce leaf _ proofFlags) =>
    nonce = nonceOf blockHeight leaf ∧ ∀ root ∈ s.world.stateRoot.lookup blockHeight,
      (tree blockHeight root).LeadsToLeaf proofFlags.reverse
  | _ => True

structure Checked (crypto : Crypto) (nonceOf : UInt32 → Digest → UInt64)
    (tree : UInt32 → Digest → HashTree Digest) (c : Consumption) : Prop where
  nonce : c.nonce = nonceOf c.blockHeight c.leaf
  reaches : HashTree.climb (join crypto) c.leaf c.path = c.root
  leads : (tree c.blockHeight c.root).LeadsToLeaf (HashTree.directions c.path)

/-- The consumed leaves are checked and their nonces are on record, so none is consumed twice. -/
structure Accounted (crypto : Crypto) (nonceOf : UInt32 → Digest → UInt64)
    (tree : UInt32 → Digest → HashTree Digest) (s : Traced Address) : Prop where
  checked : ∀ c ∈ consumptions s.log, Checked crypto nonceOf tree c
  processed : ∀ c ∈ consumptions s.log, isNonceProcessed c.nonce s.world = true
  once : ((consumptions s.log).map fun c => (c.blockHeight, c.leaf)).Nodup

variable {nonceOf : UInt32 → Digest → UInt64} {tree : UInt32 → Digest → HashTree Digest}
  {s s' : Traced Address} {action : Action Address} {actions : List (Action Address)}

theorem Accounted.frame (accounted : Accounted crypto nonceOf tree s)
    (log : consumptions s'.log = consumptions s.log)
    (nonces : s'.world.processedNonce = s.world.processedNonce) :
    Accounted crypto nonceOf tree s' where
  checked := by
    rw [log]
    exact accounted.checked
  processed := by
    unfold isNonceProcessed
    rw [log, nonces]
    exact accounted.processed
  once := by
    rw [log]
    exact accounted.once

theorem Accounted.consume (accounted : Accounted crypto nonceOf tree s)
    (log : consumptions s'.log = consumptions s.log ++ [c])
    (world : s'.world = consumeNonce c.nonce s.world)
    (fresh : isNonceProcessed c.nonce s.world = false) (checked : Checked crypto nonceOf tree c) :
    Accounted crypto nonceOf tree s' where
  checked d member := by
    rw [log, List.mem_append, List.mem_singleton] at member
    rcases member with before | rfl
    · exact accounted.checked d before
    · exact checked
  processed d member := by
    rw [log, List.mem_append, List.mem_singleton] at member
    rw [world, isNonceProcessed, consumeNonce, Store.getD_set]
    rcases member with before | rfl
    · split_ifs
      · rfl
      · exact accounted.processed d before
    · rw [if_pos rfl]
  once := by
    rw [log, List.map_append, List.map_singleton, ← List.concat_eq_append, List.nodup_concat]
    refine ⟨fun member => ?_, accounted.once⟩
    obtain ⟨d, before, same⟩ := List.mem_map.1 member
    obtain ⟨height, leaf⟩ := Prod.mk.inj same
    -- The same leaf has the same nonce, which is used.
    have sameNonce : d.nonce = c.nonce := by
      rw [(accounted.checked d before).nonce, checked.nonce, height, leaf]
    have used := accounted.processed d before
    rw [sameNonce, fresh] at used
    exact Bool.false_ne_true used

theorem Accounted.step (accounted : Accounted crypto nonceOf tree s)
    (proper : Proper nonceOf tree s action) (step : Step crypto s action s') :
    Accounted crypto nonceOf tree s' := by
  obtain ⟨_, _⟩ := s'
  rcases step_effect step with ⟨_, rfl, log, world⟩ | ⟨_, _, events, rfl, log, effect⟩
  · exact accounted.frame (by rw [log, consumptions_append]; exact List.append_nil _)
      (by rw [world])
  · cases effect with
    | other _ _ nonces plain =>
      have none : consumptions events = [] := by
        refine List.filterMap_eq_nil_iff.2 fun event member => ?_
        obtain ⟨_, _, rfl⟩ := plain event member
        rfl
      exact accounted.frame (by rw [log, consumptions_append, none, List.append_nil]) nonces
    | added | removed =>
      exact accounted.frame (by rw [log, consumptions_append]; exact List.append_nil _) rfl
    | @consumed height root nonce leaf proof flags fresh posted lengths reaches =>
      obtain ⟨own, leads⟩ := proper
      have path : HashTree.directions (proof.zip flags) = flags.reverse := by
        rw [HashTree.directions, List.map_snd_zip lengths.ge]
      rw [hashSibling_eq] at reaches
      refine accounted.consume (c := ⟨height, root, nonce, leaf, proof.zip flags⟩)
        (by rw [log, consumptions_append]; rfl) rfl fresh ⟨own, reaches, ?_⟩
      rw [path]
      exact leads root posted

theorem Accounted.run (run : Run (Guarded (Proper nonceOf tree) (Step crypto)) {} actions s) :
    Accounted crypto nonceOf tree s := by
  refine run.invariant ⟨?_, ?_, List.nodup_nil⟩ fun _ _ _ accounted step =>
    accounted.step step.1 step.2
  · exact fun _ member => absurd member List.not_mem_nil
  · exact fun _ member => absurd member List.not_mem_nil

/-! ## Soundness -/

/-- The strings that are hashed in the trees and along the paths of the consumed leaves. -/
def treeStrings (crypto : Crypto) (tree : UInt32 → Digest → HashTree Digest) (log : List Event) :
    Set Bytes :=
  {string | ∃ c ∈ consumptions log, ∃ pair, string = joinedString pair ∧
    (pair ∈ (tree c.blockHeight c.root).pairs (join crypto) ∨
      pair ∈ pathPairs (join crypto) c.leaf c.path)}

/-- In a run of proper calls, each digest that `verify_message_and_consume` accepts is a leaf of the
posted tree and is accepted once for its height; but any node of a posted tree is accepted, under
any unused nonce. -/
theorem inclusion_sound (run : Run (Guarded (Proper nonceOf tree) (Step crypto)) {} actions s)
    (free : Set.InjOn crypto.sha256 (treeStrings crypto tree s.log)) :
    (∀ c ∈ consumptions s.log, (tree c.blockHeight c.root).root (join crypto) = c.root →
        c.leaf ∈ (tree c.blockHeight c.root).leaves) ∧
      ((consumptions s.log).map fun c => (c.blockHeight, c.leaf)).Nodup ∧
      ∀ blockHeight posted subtree path nonce,
        s.world.stateRoot.lookup blockHeight = some (posted.root (join crypto)) →
        Position (join crypto) posted subtree path → isNonceProcessed nonce s.world = false →
        verifyMessageAndConsume crypto blockHeight nonce (subtree.root (join crypto))
          (path.map Prod.fst) (path.map Prod.snd) s.world =
            .ok (true, consumeNonce nonce s.world) := by
  have accounted := Accounted.run run
  refine ⟨fun c member isRoot => ?_, accounted.once,
    fun blockHeight _ subtree path _ root position fresh => ?_⟩
  · have checked := accounted.checked c member
    exact HashTree.start_mem_leaves (join_injOn free) _
      (fun pair inTree => ⟨c, member, pair, rfl, .inl inTree⟩)
      (fun pair inPath => ⟨c, member, pair, rfl, .inr inPath⟩)
      (checked.reaches.trans isRoot.symm) checked.leads
  · have valid : verifyMessage crypto blockHeight (subtree.root (join crypto)) (path.map Prod.fst)
        (path.map Prod.snd) s.world = true := by
      refine verifyMerkleProof_iff.2 ⟨_, root, by simp, ?_⟩
      rw [List.zip_map', hashSibling_eq]
      simpa [HashTree.climb] using position.climb
    simp [verifyMessageAndConsume, fresh, valid, reject]

def leafA : Digest := ⟨List.replicate 32 1, rfl⟩

def leafB : Digest := ⟨List.replicate 32 2, rfl⟩

def twoLeaves : HashTree Digest := .node (.leaf leafA) (.leaf leafB)

theorem twoLeaves_free (log : List Event) (paths : ∀ c ∈ consumptions log,
      pathPairs (join plainCrypto) c.leaf c.path ⊆ [(leafA, leafB)]) :
    Set.InjOn plainCrypto.sha256 (treeStrings plainCrypto (fun _ _ => twoLeaves) log) := by
  have only : treeStrings plainCrypto (fun _ _ => twoLeaves) log ⊆
      {joinedString (leafA, leafB)} := by
    rintro _ ⟨c, member, _, rfl, inTree | inPath⟩
    · exact congrArg joinedString (List.mem_singleton.1 inTree)
    · exact congrArg joinedString (List.mem_singleton.1 (paths c member inPath))
  exact (Set.subsingleton_singleton.anti only).injOn _

def posting : List (Action ℕ) :=
  [signed (.initializeVerifier 0), signed (.updateRoot 1 (twoLeaves.root (join plainCrypto)))]

/-- The root itself is consumed, with no siblings. -/
def consumeRoot : Action ℕ :=
  signed (.verifyMessageAndConsume 1 0 (twoLeaves.root (join plainCrypto)) [] [])

/-- The first leaf is consumed with its sibling, under a nonce. -/
def consumeA (nonce : UInt64) : Action ℕ :=
  signed (.verifyMessageAndConsume 1 nonce leafA [leafB] [false])

def consumedA (nonce : UInt64) : Consumption :=
  ⟨1, twoLeaves.root (join plainCrypto), nonce, leafA, [(leafB, false)]⟩

theorem leafA_consumed :
    ∃ s : Traced ℕ,
      Run (Guarded (Proper (fun _ _ => 7) fun _ _ => twoLeaves) (Step plainCrypto)) {}
        (posting ++ [consumeA 7]) s ∧
      consumptions s.log = [consumedA 7] ∧ leafA ∈ twoLeaves.leaves := by
  obtain ⟨s₁, first, s₂, second, s, last, consumed⟩ : ∃ s₁,
      perform plainCrypto {} (signed (.initializeVerifier 0)) = .ok s₁ ∧
      ∃ s₂, perform plainCrypto s₁
          (signed (.updateRoot 1 (twoLeaves.root (join plainCrypto)))) = .ok s₂ ∧
      ∃ s, perform plainCrypto s₂ (consumeA 7) = .ok s ∧ consumptions s.log = [consumedA 7] := by
    decide +kernel
  have proper : Proper (fun _ _ => 7) (fun _ _ => twoLeaves) s₂ (consumeA 7) :=
    ⟨rfl, fun _ _ => rfl⟩
  have run : Run (Guarded (Proper (fun _ _ => 7) fun _ _ => twoLeaves) (Step plainCrypto)) {}
      (posting ++ [consumeA 7]) s :=
    ((Run.nil.snoc ⟨trivial, first⟩).snoc ⟨trivial, second⟩).snoc ⟨proper, last⟩
  have free := twoLeaves_free s.log (by simp [consumed, consumedA, pathPairs, HashTree.pair])
  have sound := (inclusion_sound run free).1 (consumedA 7) (by simp [consumed]) rfl
  exact ⟨s, run, consumed, sound⟩

/-- The root of the tree is consumed like a leaf, and a leaf is consumed twice. -/
theorem root_and_repeated_leaf_consumed :
    ∃ s : Traced ℕ, Run (Step plainCrypto) {}
        (posting ++ [consumeRoot, consumeA 1, consumeA 2]) s ∧
      Set.InjOn plainCrypto.sha256 (treeStrings plainCrypto (fun _ _ => twoLeaves) s.log) ∧
      (consumptions s.log).map Consumption.leaf =
        [twoLeaves.root (join plainCrypto), leafA, leafA] ∧
      twoLeaves.root (join plainCrypto) ∉ twoLeaves.leaves := by
  obtain ⟨s, done, consumed⟩ : ∃ s,
      (posting ++ [consumeRoot, consumeA 1, consumeA 2]).foldlM (perform plainCrypto) {} = .ok s ∧
      consumptions s.log = [⟨1, twoLeaves.root (join plainCrypto), 0,
        twoLeaves.root (join plainCrypto), []⟩, consumedA 1, consumedA 2] := by
    decide +kernel
  have free := twoLeaves_free s.log (by simp [consumed, consumedA, pathPairs, HashTree.pair])
  exact ⟨s, Run.of_foldlM (fun _ _ _ => id) done, free, by rw [consumed]; rfl, by decide +kernel⟩

end CrossChainVerifier
