/-
# The zone invariant

`Wf held pending out loose own z` puts the two halves together.  Besides the
requests' references (`held`, `pending`) it names what a lock-held function has
in its hands: the nodes off their queue (`out`), the node blocks that are not in
the tree (`loose`) and the bodies whose node is not queued (`own`).  Between two
operations the last three are empty.

The lock-held functions are sequences of a few moves, and each move trades one
of these lists for another: unlinking a node puts it into `out` and its body
into `own`, deleting it moves it from `out` to `loose`, releasing its body and
freeing its block empty `own` and `loose`.
-/

import CacheTurbo.Shm.Queues
import CacheTurbo.Shm.Heap

namespace CacheTurbo
namespace Shm

/-- The bodies the queued nodes own. -/
def ownRefs (z : Zone) : List BlobId := z.resident.filterMap fun a => (z.mem a).data

/-- **The zone invariant.** -/
structure Wf (held pending : List BlobId) (out loose : List Addr) (own : List BlobId)
    (z : Zone) : Prop where
  queues : Queues out z
  heap : Heap held pending (z.resident ++ out ++ loose) (ownRefs z ++ own) z

/-- What linkage reads: the tree, the queues, the two counters and the nodes. -/
def Zone.links (z : Zone) :
    BinaryTree RbLink × List Addr × List Addr × ℕ × ℕ × (Addr → Node) :=
  (z.rbtree, z.lru, z.lruProtected, z.nProtected, z.nEntries, z.mem)

/-- What the heap reads: the slab's lists, the bodies and the byte counter. -/
def Zone.stock (z : Zone) :
    List Addr × List BlobId × List BlobId × ℕ × (BlobId → Blob) × ℕ × ℕ × ℕ :=
  (z.slab.taken, z.slab.blobs, z.slab.freed, z.slab.serial, z.blob, z.usedBytes, z.alerts, z.wild)

theorem Queues.of_links {out : List Addr} {z z' : Zone} (h : Queues out z)
    (hl : z'.links = z.links) : Queues out z' := by
  simp only [Zone.links, Prod.mk.injEq] at hl
  obtain ⟨h1, h2, h3, h4, h5, h6⟩ := hl
  exact h.of_eq h1 h2 h3 h4 h5 h6

theorem Heap.of_stock {held pending : List BlobId} {nodes : List Addr} {own : List BlobId}
    {z z' : Zone} (h : Heap held pending nodes own z) (hs : z'.stock = z.stock) :
    Heap held pending nodes own z' := by
  simp only [Zone.stock, Prod.mk.injEq] at hs
  obtain ⟨h1, h2, h3, h4, h5, h6, h7, h8⟩ := hs
  exact h.congr h1 h2 h3 h4 h5 h6 h7 h8

theorem resident_of_links {z z' : Zone} (hl : z'.links = z.links) : z'.resident = z.resident := by
  simp only [Zone.links, Prod.mk.injEq] at hl
  unfold Zone.resident
  rw [hl.2.1, hl.2.2.1]

theorem ownRefs_of_links {z z' : Zone} (hl : z'.links = z.links) : ownRefs z' = ownRefs z := by
  have hres := resident_of_links hl
  simp only [Zone.links, Prod.mk.injEq] at hl
  unfold ownRefs
  rw [hres, hl.2.2.2.2.2]

/-- Freeing a block, or letting a body go, touches no linkage. -/
theorem links_freeLocked (z : Zone) (p : Addr) (size : ℕ) : (freeLocked z p size).links = z.links := by
  unfold freeLocked
  split_ifs <;> rfl

theorem links_freeBlob (z : Zone) (b : BlobId) (bytes : ℕ) : (freeBlob z b bytes).links = z.links :=
  links_freeLocked z (z.blob b).addr bytes

theorem links_blobNodeRelease (z : Zone) (b : BlobId) : (blobNodeRelease z b).links = z.links := by
  unfold blobNodeRelease
  dsimp only
  split_ifs
  · exact links_freeBlob _ b _
  · rfl

theorem links_releaseData (z : Zone) (data : Option BlobId) :
    (releaseData z data).links = z.links := by
  cases data with
  | none => rfl
  | some b => exact links_blobNodeRelease z b

/-- A body that is taken out of a `filterMap` stands in front. -/
theorem filterMap_cons_toList {α β : Type*} (f : α → Option β) (a : α) (l : List α) :
    (a :: l).filterMap f = (f a).toList ++ l.filterMap f := by
  cases hf : f a with
  | none => rw [List.filterMap_cons_none hf]; rfl
  | some b => rw [List.filterMap_cons_some hf]; rfl

namespace Wf

variable {held pending : List BlobId} {out loose : List Addr} {own : List BlobId} {z z' : Zone}

/-- A body a queued node owns is allocated. -/
theorem own_live (h : Wf held pending out loose own z) {a : Addr} (ha : a ∈ z.resident)
    {b : BlobId} (hb : (z.mem a).data = some b) : b ∈ z.slab.blobs :=
  h.heap.own_live b (List.mem_append_left _ (List.mem_filterMap.2 ⟨a, ha, hb⟩))

/-- Statements that touch neither linkage nor heap keep the invariant. -/
theorem of_eq (h : Wf held pending out loose own z) (hl : z'.links = z.links)
    (hs : z'.stock = z.stock) : Wf held pending out loose own z' where
  queues := h.queues.of_links hl
  heap := by
    rw [resident_of_links hl, ownRefs_of_links hl]
    exact h.heap.of_stock hs

/-- A node write that keeps key, kind, body, length and segment. -/
theorem setNode_same (h : Wf held pending out loose own z) (a : Addr) {f : Node → Node}
    (hf : (f (z.mem a)).shape = (z.mem a).shape) : Wf held pending out loose own (z.setNode a f) where
  queues := h.queues.setNode_same a hf
  heap := by
    have hown : ownRefs (z.setNode a f) = ownRefs z := by
      refine List.filterMap_congr fun b _ => ?_
      by_cases hb : b = a
      · subst hb
        simp only [Node.shape, Prod.mk.injEq] at hf
        simpa [Zone.setNode] using hf.2.2.1
      · simp [Zone.setNode, hb]
    rw [hown]
    exact h.heap.of_stock rfl

/-- A node write that keeps key, body and segment and leaves a right shape. -/
theorem setNode_ok (h : Wf held pending out loose own z) (a : Addr) {f : Node → Node}
    (hkey : (f (z.mem a)).key = (z.mem a).key) (hdata : (f (z.mem a)).data = (z.mem a).data)
    (hseg : (f (z.mem a)).seg = (z.mem a).seg) (hok : NodeOk (f (z.mem a))) :
    Wf held pending out loose own (z.setNode a f) where
  queues := h.queues.setNode_ok a hkey hseg hok
  heap := by
    have hown : ownRefs (z.setNode a f) = ownRefs z := by
      refine List.filterMap_congr fun b _ => ?_
      by_cases hb : b = a
      · subst hb; simpa [Zone.setNode] using hdata
      · simp [Zone.setNode, hb]
    rw [hown]
    exact h.heap.of_stock rfl

/-- A write to an unlinked node that keeps its key. -/
theorem setNode_out {a : Addr} (h : Wf held pending out loose own z) (ha : a ∈ out)
    {f : Node → Node} (hf : (f (z.mem a)).key = (z.mem a).key) :
    Wf held pending out loose own (z.setNode a f) where
  queues := h.queues.setNode_out ha hf
  heap := by
    have hown : ownRefs (z.setNode a f) = ownRefs z := by
      refine List.filterMap_congr fun b hb => ?_
      have hne : b ≠ a := fun he => h.queues.not_mem_out hb (he ▸ ha)
      simp [Zone.setNode, hne]
    rw [hown]
    exact h.heap.of_stock rfl

/-- **`lru_unlink`**: the node and its body come into the function's hands. -/
theorem unlink (h : Wf held pending out loose own z) {a : Addr} (ha : a ∈ z.resident) :
    Wf held pending (a :: out) loose ((z.mem a).data.toList ++ own) (lruUnlink z a) where
  queues := h.queues.unlink ha
  heap := by
    have hres := h.queues.resident_unlink a
    have hsplit := List.perm_cons_erase ha
    have hown : (ownRefs z).Perm ((z.mem a).data.toList ++ ownRefs (lruUnlink z a)) := by
      have hp := hsplit.filterMap fun b => (z.mem b).data
      rw [filterMap_cons_toList] at hp
      unfold ownRefs
      rw [hres]
      exact hp
    have hnodes : (z.resident ++ out ++ loose).Perm
        ((lruUnlink z a).resident ++ a :: out ++ loose) := by
      rw [hres]
      exact ((hsplit.append_right out).trans List.perm_middle.symm).append_right loose
    have howns : (ownRefs z ++ own).Perm
        (ownRefs (lruUnlink z a) ++ ((z.mem a).data.toList ++ own)) := by
      rw [← List.append_assoc]
      exact (hown.trans List.perm_append_comm).append_right own
    exact (h.heap.perm hnodes howns).of_stock rfl

/-- **`lru_link_head`**: both go back. -/
theorem link {a : Addr} (h : Wf held pending (a :: out) loose ((z.mem a).data.toList ++ own) z)
    (hok : NodeOk (z.mem a)) : Wf held pending out loose own (lruLinkHead z a) where
  queues := h.queues.link hok
  heap := by
    have hres : (a :: z.resident).Perm (lruLinkHead z a).resident := by
      unfold lruLinkHead
      split_ifs
      · exact List.perm_middle.symm
      · exact List.Perm.refl _
    have hmem : (lruLinkHead z a).mem = z.mem := by
      unfold lruLinkHead
      split_ifs <;> rfl
    have hstock : (lruLinkHead z a).stock = z.stock := by
      unfold lruLinkHead
      split_ifs <;> rfl
    have hown : ((z.mem a).data.toList ++ ownRefs z).Perm (ownRefs (lruLinkHead z a)) := by
      have hp := hres.filterMap fun b => (z.mem b).data
      rw [filterMap_cons_toList] at hp
      unfold ownRefs
      rw [hmem]
      exact hp
    have hnodes : (z.resident ++ a :: out ++ loose).Perm
        ((lruLinkHead z a).resident ++ out ++ loose) :=
      (List.perm_middle.trans (hres.append_right out)).append_right loose
    have howns : (ownRefs z ++ ((z.mem a).data.toList ++ own)).Perm
        (ownRefs (lruLinkHead z a) ++ own) := by
      rw [← List.append_assoc]
      exact (List.perm_append_comm.trans hown).append_right own
    exact (h.heap.perm hnodes howns).of_stock hstock

/-- A block that is not in the tree yet belongs to no linked node. -/
theorem loose_not_linked {a : Addr} (h : Wf held pending out (a :: loose) own z) :
    a ∉ z.resident ++ out := by
  have hperm : (z.resident ++ out ++ a :: loose).Perm (a :: (z.resident ++ out ++ loose)) :=
    List.perm_middle
  have hnew := (List.nodup_cons.1 (hperm.nodup_iff.1 h.heap.nodes_nodup)).1
  exact fun ha => hnew (List.mem_append_left _ ha)

theorem loose_not_resident {a : Addr} (h : Wf held pending out (a :: loose) own z) :
    a ∉ z.resident := fun ha => h.loose_not_linked (List.mem_append_left _ ha)

/-- `blob_node_release` on a body in the function's hands. -/
theorem release {data : Option BlobId}
    (h : Wf held pending out loose (data.toList ++ own) z) :
    Wf held pending out loose own (releaseData z data) where
  queues := h.queues.of_links (links_releaseData z data)
  heap := by
    rw [resident_of_links (links_releaseData z data), ownRefs_of_links (links_releaseData z data)]
    cases data with
    | none => exact h.heap
    | some b => exact (h.heap.perm (List.Perm.refl _) List.perm_middle).release

/-- The block of a node that is nowhere linked goes back. -/
theorem freeNode {a : Addr} (h : Wf held pending out (a :: loose) own z) :
    Wf held pending out loose own (freeLocked z a sizeofNode) where
  queues := h.queues.of_links (links_freeLocked z a sizeofNode)
  heap := by
    rw [resident_of_links (links_freeLocked z a sizeofNode),
      ownRefs_of_links (links_freeLocked z a sizeofNode)]
    exact (h.heap.perm List.perm_middle (List.Perm.refl _)).freeNode

/-- `blob_acquire` on the body of a queued node. -/
theorem acquire (h : Wf held pending out loose own z) {a : Addr} (ha : a ∈ z.resident)
    {b : BlobId} (hb : (z.mem a).data = some b) :
    Wf (b :: held) pending out loose own (blobAcquire z b) where
  queues := h.queues.of_links rfl
  heap := h.heap.acquire (List.mem_append_left _ (List.mem_filterMap.2 ⟨a, ha, hb⟩))

variable (rb : Rbtree)

/-- `n_entries--; ngx_rbtree_delete`: the node's block is all that is left. -/
theorem delete {a : Addr} (h : Wf held pending (a :: out) loose own z) :
    Wf held pending out (a :: loose) own
      (rbtreeDelete rb { z with nEntries := z.nEntries - 1 } a) where
  queues := h.queues.delete rb
  heap := by
    have hnodes : (z.resident ++ a :: out ++ loose).Perm (z.resident ++ out ++ a :: loose) := by
      rw [List.append_assoc, List.append_assoc, List.cons_append]
      exact List.Perm.append_left _ List.perm_middle.symm
    exact (h.heap.perm hnodes (List.Perm.refl _)).of_stock rfl

/-- A new node enters with the body written into it. -/
theorem create {a : Addr} {write : Node → Node}
    (h : Wf held pending out (a :: loose) ((write (z.mem a)).data.toList ++ own) z)
    (hkey : ∀ b, b ∈ z.resident ∨ b ∈ out → (z.mem b).key ≠ (write (z.mem a)).key)
    (hok : NodeOk { write (z.mem a) with
      seg := .segProbation, sieSpared := false, varidxPending := false }) :
    Wf held pending out loose own (createNode rb z a write) := by
  have hnew := h.loose_not_linked
  have hr : a ∉ z.resident := fun hc => hnew (List.mem_append_left _ hc)
  have ho : a ∉ out := fun hc => hnew (List.mem_append_right _ hc)
  refine ⟨h.queues.create rb hr ho hkey hok, ?_⟩
  have hmem : ∀ b, b ≠ a → (createNode rb z a write).mem b = z.mem b := by
    intro b hb
    simp [createNode, lruInsertNew, rbtreeInsert, Zone.setNode, hb]
  have hself : ((createNode rb z a write).mem a).data = (write (z.mem a)).data := by
    simp [createNode, lruInsertNew, rbtreeInsert, Zone.setNode]
  have hown : ownRefs (createNode rb z a write) = (write (z.mem a)).data.toList ++ ownRefs z := by
    show (a :: z.resident).filterMap _ = _
    rw [filterMap_cons_toList, hself]
    congr 1
    refine List.filterMap_congr fun b hb => ?_
    rw [hmem b (by rintro rfl; exact hr hb)]
  have hnodes : (z.resident ++ out ++ a :: loose).Perm
      ((createNode rb z a write).resident ++ out ++ loose) := by
    show (z.resident ++ out ++ a :: loose).Perm (a :: (z.resident ++ out ++ loose))
    exact List.perm_middle
  have howns : (ownRefs z ++ ((write (z.mem a)).data.toList ++ own)).Perm
      (ownRefs (createNode rb z a write) ++ own) := by
    rw [hown, ← List.append_assoc]
    exact List.perm_append_comm.append_right own
  exact (h.heap.perm hnodes howns).of_stock rfl

/-- **`shm_drop_locked`** keeps the invariant: the node is unlinked, deleted,
its body released and its block freed. -/
theorem drop (h : Wf held pending out loose own z) {a : Addr} (ha : a ∈ z.resident) :
    Wf held pending out loose own (dropLocked rb z a) := by
  have h1 := (h.unlink ha).delete rb
  set z₁ := rbtreeDelete rb
    { lruUnlink z a with nEntries := (lruUnlink z a).nEntries - 1 } a with hz₁
  have hlinks : (discountMarker z₁ a).links = z₁.links := by
    unfold discountMarker
    split_ifs <;> rfl
  have hstock : (discountMarker z₁ a).stock = z₁.stock := by
    unfold discountMarker
    split_ifs <;> rfl
  have h2 := h1.of_eq hlinks hstock
  have hdata : ((discountMarker z₁ a).mem a).data = (z.mem a).data := by
    unfold discountMarker
    split_ifs <;> rfl
  rw [← hdata] at h2
  exact h2.release.freeNode

end Wf

end Shm
end CacheTurbo
