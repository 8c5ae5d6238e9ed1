/-
# Search trees seen through their in-order list

A binary search tree is used here through two walks: `find` descends from the
root comparing the sought key with each node, and `insertWalk` descends to the
empty link where a new node belongs.  Rotations change neither what the walks
find nor the order, because both are functions of the in-order list as soon as
that list is sorted: `find_eq_some_iff` and `insertWalk_inorder` say so, and a
rebalancing only has to keep `inorder`.

The nodes carry any payload `β`; the key of a node is read through `k : β → κ`,
which may depend on a memory outside the tree, so `Sorted` is stated of `k`
and transported along `Sorted.congr` when that memory changes elsewhere.
-/

import Mathlib.Data.Tree.Basic
import Mathlib.Data.List.Pairwise
import Mathlib.Data.List.Perm.Basic
import Mathlib.Order.Defs.LinearOrder

namespace CacheTurbo
namespace SearchTree

variable {β κ : Type*}

/-- The payloads from left to right. -/
def inorder : BinaryTree β → List β
  | .nil => []
  | .node b l r => inorder l ++ b :: inorder r

@[simp] theorem inorder_nil : inorder (.nil : BinaryTree β) = [] := rfl

@[simp] theorem inorder_node (b : β) (l r : BinaryTree β) :
    inorder (.node b l r) = inorder l ++ b :: inorder r := rfl

/-- Descend from the root; `ord b` compares the sought key with the key of `b`. -/
def find (ord : β → Ordering) : BinaryTree β → Option β
  | .nil => none
  | .node b l r =>
      match ord b with
      | .lt => find ord l
      | .gt => find ord r
      | .eq => some b

/-- Descend to an empty link and hang `x` there: left where `x` goes before the
node met, right otherwise. -/
def insertWalk (before : β → Bool) (x : β) : BinaryTree β → BinaryTree β
  | .nil => .node x .nil .nil
  | .node b l r =>
      if before b then .node b (insertWalk before x l) r
      else .node b l (insertWalk before x r)

/-- The search compares with nodes of the tree only. -/
theorem find_congr {ord ord' : β → Ordering} {t : BinaryTree β}
    (h : ∀ b ∈ inorder t, ord' b = ord b) : find ord' t = find ord t := by
  induction t with
  | nil => rfl
  | node b l r ihl ihr =>
    rw [find, find, h b (by simp), ihl fun c hc => h c (by simp [hc]),
      ihr fun c hc => h c (by simp [hc])]

/-- What the search finds is in the tree. -/
theorem mem_of_find {ord : β → Ordering} {t : BinaryTree β} {b : β} (h : find ord t = some b) :
    b ∈ inorder t := by
  induction t with
  | nil => cases h
  | node c l r ihl ihr =>
    rw [find] at h
    rw [inorder_node, List.mem_append, List.mem_cons]
    cases hc : ord c with
    | lt => rw [hc] at h; exact Or.inl (ihl h)
    | gt => rw [hc] at h; exact Or.inr (Or.inr (ihr h))
    | eq => rw [hc] at h; exact Or.inr (Or.inl (Option.some.inj h).symm)

/-- So does the walk of a new node. -/
theorem insertWalk_congr {before before' : β → Bool} (x : β) {t : BinaryTree β}
    (h : ∀ b ∈ inorder t, before' b = before b) :
    insertWalk before' x t = insertWalk before x t := by
  induction t with
  | nil => rfl
  | node b l r ihl ihr =>
    rw [insertWalk, insertWalk, h b (by simp), ihl fun c hc => h c (by simp [hc]),
      ihr fun c hc => h c (by simp [hc])]

/-- The in-order keys increase strictly under `cmp`. -/
def Sorted (cmp : κ → κ → Ordering) (k : β → κ) (t : BinaryTree β) : Prop :=
  (inorder t).Pairwise fun a b => cmp (k a) (k b) = .lt

section Order

variable {cmp : κ → κ → Ordering} [Std.TransCmp cmp] {k k' : β → κ}

omit [Std.TransCmp cmp] in
/-- Only the keys of the nodes in the tree matter. -/
theorem Sorted.congr {t t' : BinaryTree β} (h : Sorted cmp k t) (ht : inorder t' = inorder t)
    (hk : ∀ b ∈ inorder t, k' b = k b) : Sorted cmp k' t' := by
  unfold Sorted at *
  rw [ht]
  refine h.imp_of_mem fun ha hb hab => ?_
  rw [hk _ ha, hk _ hb]
  exact hab

omit [Std.TransCmp cmp] in
/-- Dropping nodes keeps the order. -/
theorem Sorted.sublist {t t' : BinaryTree β} (h : Sorted cmp k t)
    (ht : (inorder t').Sublist (inorder t)) : Sorted cmp k t' :=
  List.Pairwise.sublist ht h

/-- **The search finds the node with the sought key.**  In a sorted tree the
descent returns a node exactly when that node is in the tree and compares equal
to the key. -/
theorem find_eq_some_iff {t : BinaryTree β} (h : Sorted cmp k t) (x : κ) (b : β) :
    find (fun c => cmp x (k c)) t = some b ↔ b ∈ inorder t ∧ cmp x (k b) = .eq := by
  induction t with
  | nil => simp [find]
  | node c l r ihl ihr =>
    obtain ⟨hl, hcr, hlr⟩ := List.pairwise_append.1 h
    obtain ⟨hc, hr⟩ := List.pairwise_cons.1 hcr
    have hlc : ∀ a ∈ inorder l, cmp (k a) (k c) = .lt := fun a ha =>
      hlr a ha c (List.mem_cons_self ..)
    have hnl : cmp x (k c) ≠ .lt → ∀ a ∈ inorder l, cmp x (k a) ≠ .eq := by
      intro hx a ha heq
      exact hx (Std.TransCmp.lt_of_eq_of_lt heq (hlc a ha))
    have hnr : cmp x (k c) ≠ .gt → ∀ a ∈ inorder r, cmp x (k a) ≠ .eq := by
      intro hx a ha heq
      have h1 := Std.TransCmp.lt_of_lt_of_eq (hc a ha) (Std.OrientedCmp.eq_symm heq)
      exact hx (Std.OrientedCmp.gt_of_lt h1)
    simp only [find, inorder_node, List.mem_append, List.mem_cons]
    cases hx : cmp x (k c) with
    | lt =>
      simp only [ihl hl]
      constructor
      · exact fun ⟨hb, he⟩ => ⟨Or.inl hb, he⟩
      · rintro ⟨hb | rfl | hb, he⟩
        · exact ⟨hb, he⟩
        · rw [hx] at he; cases he
        · exact absurd he (hnr (by rw [hx]; decide) b hb)
    | eq =>
      constructor
      · rintro ⟨⟩
        exact ⟨Or.inr (Or.inl rfl), hx⟩
      · rintro ⟨hb | rfl | hb, he⟩
        · exact absurd he (hnl (by rw [hx]; decide) b hb)
        · rfl
        · exact absurd he (hnr (by rw [hx]; decide) b hb)
    | gt =>
      simp only [ihr hr]
      constructor
      · exact fun ⟨hb, he⟩ => ⟨Or.inr (Or.inr hb), he⟩
      · rintro ⟨hb | rfl | hb, he⟩
        · exact absurd he (hnl (by rw [hx]; decide) b hb)
        · rw [hx] at he; cases he
        · exact ⟨hb, he⟩

omit [Std.TransCmp cmp] in
/-- The walk adds its node and nothing else. -/
theorem insertWalk_perm (before : β → Bool) (x : β) (t : BinaryTree β) :
    (inorder (insertWalk before x t)).Perm (x :: inorder t) := by
  induction t with
  | nil => exact List.Perm.refl _
  | node b l r ihl ihr =>
    rw [insertWalk]
    split_ifs
    · exact (ihl.append_right _).trans (List.Perm.refl _)
    · simp only [inorder_node]
      refine ((List.perm_append_left_iff _).2 ((List.perm_cons b).2 ihr)).trans ?_
      exact ((List.perm_append_left_iff _).2 (List.Perm.swap ..)).trans List.perm_middle

/-- **The walk keeps the order** when the new key is not in the tree yet. -/
theorem insertWalk_sorted {t : BinaryTree β} (h : Sorted cmp k t) (x : β)
    (before : β → Bool) (hb : ∀ b ∈ inorder t, before b = true ↔ cmp (k x) (k b) = .lt)
    (hx : ∀ b ∈ inorder t, cmp (k x) (k b) ≠ .eq) :
    Sorted cmp k (insertWalk before x t) := by
  induction t with
  | nil => simp [insertWalk, Sorted]
  | node c l r ihl ihr =>
    obtain ⟨hl, hcr, hlr⟩ := List.pairwise_append.1 h
    obtain ⟨hc, hr⟩ := List.pairwise_cons.1 hcr
    have hmem : ∀ b, b ∈ inorder l ∨ b = c ∨ b ∈ inorder r → b ∈ inorder (.node c l r) := by
      simp
    rw [insertWalk]
    split_ifs with hbc
    · have hxc := (hb c (hmem c (by simp))).1 hbc
      refine List.pairwise_append.2 ⟨ihl hl (fun b h' => hb b (hmem b (Or.inl h')))
        fun b h' => hx b (hmem b (Or.inl h')), hcr, fun a ha d hd => ?_⟩
      rcases List.mem_cons.1 ((insertWalk_perm before x l).mem_iff.1 ha) with rfl | ha
      · rcases List.mem_cons.1 hd with rfl | hd
        · exact hxc
        · exact Std.TransCmp.lt_trans hxc (hc d hd)
      · exact hlr a ha d hd
    · have hcx : cmp (k c) (k x) = .lt := by
        refine Std.OrientedCmp.lt_of_gt ?_
        cases h' : cmp (k x) (k c) with
        | lt => exact absurd ((hb c (hmem c (by simp))).2 h') hbc
        | eq => exact absurd h' (hx c (hmem c (by simp)))
        | gt => rfl
      refine List.pairwise_append.2 ⟨hl, List.pairwise_cons.2 ⟨fun d hd => ?_,
        ihr hr (fun b h' => hb b (hmem b (Or.inr (Or.inr h'))))
          fun b h' => hx b (hmem b (Or.inr (Or.inr h')))⟩, fun a ha d hd => ?_⟩
      · rcases List.mem_cons.1 ((insertWalk_perm before x r).mem_iff.1 hd) with rfl | hd
        · exact hcx
        · exact hc d hd
      · rcases List.mem_cons.1 hd with rfl | hd
        · exact hlr a ha d (List.mem_cons_self ..)
        · rcases List.mem_cons.1 ((insertWalk_perm before x r).mem_iff.1 hd) with rfl | hd
          · exact Std.TransCmp.lt_trans (hlr a ha c (List.mem_cons_self ..)) hcx
          · exact hlr a ha d (List.mem_cons_of_mem _ hd)

end Order

end SearchTree
end CacheTurbo
