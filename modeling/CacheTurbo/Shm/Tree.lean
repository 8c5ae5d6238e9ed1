/-
# The tree of a zone and its lookup

`ngx_http_cache_turbo_rbtree_insert_value`, `ngx_http_cache_turbo_shm_key64`
and `ngx_http_cache_turbo_shm_lookup` (`ngx_http_cache_turbo_shm.c`).

A node's tree key is the first eight bytes of its digest, most significant
first, and equal tree keys are told apart by comparing the 32 bytes.  Every
creation site writes `node.key` from the digest it writes, so the model keeps
the digest alone and computes the tree key from it.

nginx's own part of the tree is not in the repository: the recolouring and the
rotations of an insertion, and the whole deletion.  It is the parameter
`Rbtree`, of which the lookup needs only that an insertion's repair keeps the
in-order list and that a deletion takes one node out of it.
-/

import CacheTurbo.Lib.SearchTree
import CacheTurbo.Shm.Node
import Mathlib.Tactic.Common

namespace CacheTurbo
namespace Shm

open SearchTree

/-- `ngx_http_cache_turbo_shm_key64`: the first eight bytes, big-endian. -/
def key64 (keyHash : KeyHash) : ℕ :=
  (keyHash.toList.take 8).foldl (fun acc b => acc * 256 + b.toNat) 0

/-- `ngx_memcmp(a, b, 32)`. -/
def memcmp (a b : KeyHash) : Ordering := compare a.toList b.toList

/-- The order of the tree: the 64-bit key first, then the 32 bytes. -/
def keyCmp : KeyHash → KeyHash → Ordering := compareLex (compareOn key64) memcmp

instance : Std.TransCmp memcmp :=
  inferInstanceAs (Std.TransCmp (compareOn (Vector.toList : KeyHash → List UInt8)))

instance : Std.TransCmp keyCmp :=
  inferInstanceAs (Std.TransCmp (compareLex (compareOn key64) memcmp))

/-- Keys that compare equal are equal: the second comparison sees all 32 bytes. -/
theorem keyCmp_eq_iff {a b : KeyHash} : keyCmp a b = .eq ↔ a = b := by
  constructor
  · intro h
    have hm : memcmp a b = .eq := by
      unfold keyCmp compareLex at h
      exact (Ordering.then_eq_eq.1 h).2
    have hl : a.toList = b.toList := Std.LawfulEqOrd.compare_eq_iff_eq.1 hm
    exact Vector.toList_inj.1 hl
  · rintro rfl
    exact Std.ReflCmp.compare_self

/-- The addresses of a tree from left to right. -/
def addrs (t : BinaryTree RbLink) : List Addr := (inorder t).map RbLink.addr

/-- **nginx's red-black tree**, as far as this module relies on it: the repair
after an insertion (`ngx_rbtree_insert`) moves no node past another, and
`ngx_rbtree_delete` takes the given node out and moves no other. -/
structure Rbtree where
  repair : BinaryTree RbLink → Addr → BinaryTree RbLink
  delete : BinaryTree RbLink → Addr → BinaryTree RbLink
  addrs_repair : ∀ t a, addrs (repair t a) = addrs t
  addrs_delete : ∀ t a, a ∈ addrs t → addrs (delete t a) = (addrs t).erase a

/-- The tree with no left links and the given nodes. -/
def spine (l : List RbLink) : BinaryTree RbLink := l.foldr (fun n t => .node n .nil t) .nil

theorem inorder_spine (l : List RbLink) : inorder (spine l) = l := by
  induction l with
  | nil => rfl
  | cons n l ih => simpa [spine] using ih

/-- A tree that never rebalances is one such tree: `Rbtree` is inhabited. -/
def Rbtree.unbalanced : Rbtree where
  repair t _ := t
  delete t a := spine ((inorder t).eraseP fun n => n.addr = a)
  addrs_repair _ _ := rfl
  addrs_delete t a _ := by
    unfold addrs
    rw [inorder_spine]
    induction inorder t with
    | nil => rfl
    | cons n l ih =>
      by_cases h : n.addr = a
      · simp [h]
      · simp [h, ih]

/-- `ngx_http_cache_turbo_rbtree_insert_value`: the descent of a new node.  It
goes left of the nodes whose 64-bit key is larger, and on equal 64-bit keys
left of the nodes whose digest is larger. -/
def rbtreeInsertValue (mem : Addr → Node) (node : Addr) (t : BinaryTree RbLink) :
    BinaryTree RbLink :=
  insertWalk (fun temp =>
    if key64 (mem node).key < key64 (mem temp.addr).key then true
    else if key64 (mem node).key > key64 (mem temp.addr).key then false
    else memcmp (mem node).key (mem temp.addr).key == .lt) ⟨node, true⟩ t

/-- `ngx_http_cache_turbo_shm_lookup`. -/
def lookup (z : Zone) (keyHash : KeyHash) : Option Addr :=
  (find (fun n =>
    if key64 keyHash < key64 (z.mem n.addr).key then .lt
    else if key64 keyHash > key64 (z.mem n.addr).key then .gt
    else memcmp keyHash (z.mem n.addr).key) z.rbtree).map RbLink.addr

variable (rb : Rbtree)

/-- `ngx_rbtree_insert(&sh->rbtree, &ctn->node)`. -/
def rbtreeInsert (z : Zone) (node : Addr) : Zone :=
  { z with rbtree := rb.repair (rbtreeInsertValue z.mem node z.rbtree) node }

/-- `ngx_rbtree_delete(&sh->rbtree, &ctn->node)`. -/
def rbtreeDelete (z : Zone) (node : Addr) : Zone :=
  { z with rbtree := rb.delete z.rbtree node }

/-- Both walks compare by `keyCmp`. -/
theorem keyCmp_walk (a b : KeyHash) :
    keyCmp a b = if key64 a < key64 b then .lt
      else if key64 a > key64 b then .gt else memcmp a b := by
  unfold keyCmp compareLex compareOn
  rcases Nat.lt_trichotomy (key64 a) (key64 b) with h | h | h
  · rw [if_pos h, Nat.compare_eq_lt.2 h]; rfl
  · rw [if_neg (by omega), if_neg (by omega), Nat.compare_eq_eq.2 h]; rfl
  · rw [if_neg (by omega), if_pos h, Nat.compare_eq_gt.2 h]; rfl

/-- The tree is sorted by the digests its nodes hold in `mem`. -/
def TreeSorted (mem : Addr → Node) (t : BinaryTree RbLink) : Prop :=
  Sorted keyCmp (fun n => (mem n.addr).key) t

theorem TreeSorted.iff_addrs {mem : Addr → Node} {t : BinaryTree RbLink} :
    TreeSorted mem t ↔
      (addrs t).Pairwise fun a b => keyCmp (mem a).key (mem b).key = .lt := by
  unfold TreeSorted Sorted addrs
  rw [List.pairwise_map]

theorem TreeSorted.congr {mem mem' : Addr → Node} {t : BinaryTree RbLink}
    (h : TreeSorted mem t) (hk : ∀ a ∈ addrs t, (mem' a).key = (mem a).key) :
    TreeSorted mem' t :=
  Sorted.congr h rfl fun b hb => hk b.addr (List.mem_map_of_mem hb)

/-- **`shm_lookup` returns the node with that digest**, and NULL when there is
none. -/
theorem lookup_eq_some_iff {z : Zone} (h : TreeSorted z.mem z.rbtree) (keyHash : KeyHash)
    (a : Addr) : lookup z keyHash = some a ↔ a ∈ addrs z.rbtree ∧ (z.mem a).key = keyHash := by
  have hord : (fun n : RbLink =>
      if key64 keyHash < key64 (z.mem n.addr).key then Ordering.lt
      else if key64 keyHash > key64 (z.mem n.addr).key then .gt
      else memcmp keyHash (z.mem n.addr).key) =
      fun n => keyCmp keyHash (z.mem n.addr).key := by
    funext n
    exact (keyCmp_walk _ _).symm
  rw [lookup, hord, Option.map_eq_some_iff]
  simp only [find_eq_some_iff h, keyCmp_eq_iff, addrs, List.mem_map]
  constructor
  · rintro ⟨n, ⟨hn, hk⟩, rfl⟩
    exact ⟨⟨n, hn, rfl⟩, hk.symm⟩
  · rintro ⟨⟨n, hn, rfl⟩, hk⟩
    exact ⟨n, ⟨hn, hk.symm⟩, rfl⟩

theorem lookup_eq_none_iff {z : Zone} (h : TreeSorted z.mem z.rbtree) (keyHash : KeyHash) :
    lookup z keyHash = none ↔ ∀ a ∈ addrs z.rbtree, (z.mem a).key ≠ keyHash := by
  rw [Option.eq_none_iff_forall_ne_some]
  constructor
  · exact fun hn a ha hk => hn a ((lookup_eq_some_iff h keyHash a).2 ⟨ha, hk⟩)
  · exact fun hn a ha =>
      hn a ((lookup_eq_some_iff h keyHash a).1 ha).1 ((lookup_eq_some_iff h keyHash a).1 ha).2

/-- The descent of a new node puts it before the nodes with larger keys. -/
theorem rbtreeInsertValue_before (mem : Addr → Node) (node temp : Addr) :
    (if key64 (mem node).key < key64 (mem temp).key then true
      else if key64 (mem node).key > key64 (mem temp).key then false
      else memcmp (mem node).key (mem temp).key == .lt) = true ↔
      keyCmp (mem node).key (mem temp).key = .lt := by
  rw [keyCmp_walk]
  split_ifs <;> simp

theorem addrs_rbtreeInsertValue (mem : Addr → Node) (node : Addr) (t : BinaryTree RbLink) :
    (addrs (rbtreeInsertValue mem node t)).Perm (node :: addrs t) :=
  (insertWalk_perm _ _ t).map RbLink.addr

/-- The descent reads the keys of the new node and of the nodes of the tree. -/
theorem rbtreeInsertValue_congr {mem mem' : Addr → Node} {node : Addr} {t : BinaryTree RbLink}
    (hnode : (mem' node).key = (mem node).key)
    (htree : ∀ a ∈ addrs t, (mem' a).key = (mem a).key) :
    rbtreeInsertValue mem' node t = rbtreeInsertValue mem node t :=
  insertWalk_congr _ fun b hb => by rw [hnode, htree b.addr (List.mem_map_of_mem hb)]

/-- Inserting a node whose digest is new keeps the tree sorted. -/
theorem TreeSorted.insert {mem : Addr → Node} {t : BinaryTree RbLink} (h : TreeSorted mem t)
    {node : Addr} (hnew : ∀ a ∈ addrs t, (mem a).key ≠ (mem node).key) :
    TreeSorted mem (rb.repair (rbtreeInsertValue mem node t) node) := by
  rw [TreeSorted.iff_addrs, rb.addrs_repair, ← TreeSorted.iff_addrs]
  refine insertWalk_sorted h _ _ (fun b _ => rbtreeInsertValue_before mem node b.addr) ?_
  intro b hb he
  exact hnew b.addr (List.mem_map_of_mem hb) (keyCmp_eq_iff.1 he).symm

/-- Deleting a node keeps the tree sorted. -/
theorem TreeSorted.delete {mem : Addr → Node} {t : BinaryTree RbLink} (h : TreeSorted mem t)
    {node : Addr} (hmem : node ∈ addrs t) : TreeSorted mem (rb.delete t node) := by
  rw [TreeSorted.iff_addrs] at h ⊢
  rw [rb.addrs_delete t node hmem]
  exact h.sublist List.erase_sublist

end Shm
end CacheTurbo
