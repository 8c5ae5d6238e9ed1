/-
# Zones over different old bytes

Two zones are alike over a set of node addresses when they differ only in the
node blocks outside the set and in the bodies that were never allocated: the
tree, the queues, the counters and the slab are the same, and so is every node
of the set.  The set holds the nodes of the tree and of the queues, and a node
that a lock-held function still has in its hands.

A function that only reads nodes of the set answers the same over both zones
and leaves them alike, and this module says so of each function that makes no
node: the moves on a queue, the lookup, the reference count of a body, eviction
and allocation, and the purges.  The writes that make a node are the one place
where the set grows (`Alike.create`), and there the node written must not depend
on the block.
-/

import CacheTurbo.Shm.Ops
import Mathlib.Data.Set.Insert

namespace CacheTurbo
namespace Shm

open SearchTree

/-- The zones agree but for the node blocks outside `S` and the bodies not
allocated yet.  The address of a body is part of its name. -/
structure Alike (S : Set Addr) (z w : Zone) : Prop where
  rest : w = { z with mem := w.mem, blob := w.blob }
  mem : ∀ a ∈ S, w.mem a = z.mem a
  blob : ∀ b < z.slab.serial, w.blob b = z.blob b
  addr : ∀ b, (w.blob b).addr = (z.blob b).addr
  data : ∀ a ∈ S, ∀ b ∈ (z.mem a).data, b < z.slab.serial
  tree : ∀ a ∈ addrs z.rbtree, a ∈ S
  queued : ∀ a ∈ z.resident, a ∈ S

/-- What `lru_insert_new` leaves in the node it links. -/
def Node.linked (n : Node) : Node :=
  { n with seg := .segProbation, sieSpared := false, varidxPending := false }

/-- What a function answers over two such zones. -/
def Agree {α : Type} (S : Set Addr) (r r' : Zone × α) : Prop := Alike S r.1 r'.1 ∧ r'.2 = r.2

/-- The two zones, and the one answer. -/
theorem Agree.split {α : Type} {S : Set Addr} {r r' : Zone × α} (h : Agree S r r') :
    ∃ z w a, r = (z, a) ∧ r' = (w, a) ∧ Alike S z w :=
  ⟨r.1, r'.1, r.2, rfl, Prod.ext rfl h.2, h.1⟩

namespace Alike

variable {S S' : Set Addr} {z w : Zone}

/-- The other zone is this one over other blocks. -/
theorem refilled (h : Alike S z w) : ∃ m β, w = { z with mem := m, blob := β } :=
  ⟨w.mem, w.blob, h.rest⟩

/-- The set may shrink as long as it holds what is linked. -/
theorem anti (h : Alike S z w) (hS : S' ⊆ S) (htree : ∀ a ∈ addrs z.rbtree, a ∈ S')
    (hqueued : ∀ a ∈ z.resident, a ∈ S') : Alike S' z w where
  rest := h.rest
  mem a ha := h.mem a (hS ha)
  blob := h.blob
  addr := h.addr
  data a ha := h.data a (hS ha)
  tree := htree
  queued := hqueued

/-- A step that writes neither nodes nor bodies. -/
theorem move (h : Alike S z w) {z' w' : Zone}
    (hrest : w' = { z' with mem := w.mem, blob := w.blob }) (hmem : z'.mem = z.mem)
    (hblob : z'.blob = z.blob) (hserial : z'.slab.serial = z.slab.serial)
    (htree : ∀ a ∈ addrs z'.rbtree, a ∈ S) (hqueued : ∀ a ∈ z'.resident, a ∈ S) :
    Alike S z' w' := by
  subst hrest
  refine ⟨rfl, ?_, ?_, ?_, ?_, htree, hqueued⟩
  · rw [hmem]
    exact h.mem
  · rw [hserial, hblob]
    exact h.blob
  · rw [hblob]
    exact h.addr
  · rw [hmem, hserial]
    exact h.data

/-- The same write to a node of the set. -/
theorem setNode (h : Alike S z w) {a : Addr} (ha : a ∈ S) {f : Node → Node}
    (hdata : ∀ b ∈ (f (z.mem a)).data, b < z.slab.serial) :
    Alike S (z.setNode a f) (w.setNode a f) where
  rest := by
    obtain ⟨m, β, rfl⟩ := h.refilled
    rfl
  mem c hc := by
    by_cases hca : c = a
    · subst hca
      simp [Zone.setNode, h.mem c hc]
    · simp [Zone.setNode, hca, h.mem c hc]
  blob := h.blob
  addr := h.addr
  data c hc b hb := by
    by_cases hca : c = a
    · subst hca
      exact hdata b (by simpa [Zone.setNode] using hb)
    · exact h.data c hc b (by simpa [Zone.setNode, hca] using hb)
  tree := h.tree
  queued := h.queued

/-- A write that leaves the body pointer alone. -/
theorem setField (h : Alike S z w) {a : Addr} (ha : a ∈ S) {f : Node → Node}
    (hf : ∀ n, (f n).data = n.data) : Alike S (z.setNode a f) (w.setNode a f) :=
  h.setNode ha fun b hb => h.data a ha b (hf _ ▸ hb)

/-- The same, where the write is the last thing a function does. -/
theorem wrote {α : Type} (h : Alike S z w) {a : Addr} (ha : a ∈ S) {f : Node → Node}
    (hf : ∀ n, (f n).data = n.data) (x : α) : Agree S (z.setNode a f, x) (w.setNode a f, x) :=
  ⟨h.setField ha hf, rfl⟩

/-- The same write to the header of an allocated body. -/
theorem setBlob (h : Alike S z w) {b : BlobId} (hb : b < z.slab.serial) {f : Blob → Blob}
    (hf : ∀ r, (f r).addr = r.addr) : Alike S (z.setBlob b f) (w.setBlob b f) where
  rest := by
    obtain ⟨m, β, rfl⟩ := h.refilled
    rfl
  mem := h.mem
  blob c hc := by
    by_cases hcb : c = b
    · subst hcb
      simp [Zone.setBlob, h.blob c hc]
    · simp [Zone.setBlob, hcb, h.blob c hc]
  addr c := by
    by_cases hcb : c = b
    · subst hcb
      simp [Zone.setBlob, hf, h.addr]
    · simp [Zone.setBlob, hcb, h.addr]
  data := h.data
  tree := h.tree
  queued := h.queued

/-! ### The two queues -/

theorem unlink (h : Alike S z w) {a : Addr} (ha : a ∈ S) :
    Alike S (lruUnlink z a) (lruUnlink w a) := by
  refine h.move ?_ rfl rfl rfl h.tree ?_
  · unfold lruUnlink
    rw [h.mem a ha]
    obtain ⟨m, β, rfl⟩ := h.refilled
    rfl
  · intro c hc
    rcases List.mem_append.1 hc with hl | hp
    · exact h.queued c (List.mem_append_left _ (List.mem_of_mem_erase hl))
    · exact h.queued c (List.mem_append_right _ (List.mem_of_mem_erase hp))

theorem link (h : Alike S z w) {a : Addr} (ha : a ∈ S) :
    Alike S (lruLinkHead z a) (lruLinkHead w a) := by
  have hqueued : ∀ c ∈ (lruLinkHead z a).resident, c ∈ S := by
    intro c hc
    rcases List.mem_cons.1 ((Kept.resident_link z a).mem_iff.1 hc) with rfl | hc
    · exact ha
    · exact h.queued c hc
  unfold lruLinkHead at hqueued ⊢
  rw [h.mem a ha]
  obtain ⟨m, β, rfl⟩ := h.refilled
  split_ifs with hs
  · rw [if_pos hs] at hqueued
    exact h.move rfl rfl rfl rfl h.tree hqueued
  · rw [if_neg hs] at hqueued
    exact h.move rfl rfl rfl rfl h.tree hqueued

theorem demote (h : Alike S z w) (cap fuel : ℕ) :
    Alike S (lruDemote cap fuel z) (lruDemote cap fuel w) := by
  induction fuel generalizing z w with
  | zero => exact h
  | succ fuel ih =>
    have hlast : w.lruProtected = z.lruProtected := by rw [h.rest]
    have hn : w.nProtected = z.nProtected := by rw [h.rest]
    rw [lruDemote, lruDemote, hlast, hn]
    split_ifs
    · cases hl : z.lruProtected.getLast? with
      | none => exact h
      | some victim =>
        have hv : victim ∈ S := h.queued victim
          (List.mem_append_right _ (List.mem_of_getLast? hl))
        have hmoved := (h.unlink hv).setField (f := fun n => { n with seg := .segProbation }) hv
          fun _ => rfl
        exact ih (hmoved.link hv)
    · exact h

theorem enforceCap (h : Alike S z w) (protectedPct : ℕ) :
    Alike S (lruEnforceCap z protectedPct) (lruEnforceCap w protectedPct) := by
  have hn : w.nEntries = z.nEntries := by rw [h.rest]
  unfold lruEnforceCap
  rw [hn]
  exact h.demote _ _

theorem touch (h : Alike S z w) {a : Addr} (ha : a ∈ S) (now : Time) (protectedPct : ℕ)
    (hash : UInt32) :
    Alike S (touchLru z a now protectedPct hash) (touchLru w a now protectedPct hash) := by
  have hbump : Alike S { z with sketch := sketchBump z.sketch (sketchRows hash) }
      { w with sketch := sketchBump w.sketch (sketchRows hash) } := by
    refine h.move ?_ rfl rfl rfl h.tree h.queued
    obtain ⟨m, β, rfl⟩ := h.refilled
    rfl
  unfold touchLru
  dsimp only
  rw [h.mem a ha]
  by_cases hrecent : now - (z.mem a).lastAccess < 1
  · rw [if_pos hrecent, if_pos hrecent]
    exact hbump
  rw [if_neg hrecent, if_neg hrecent]
  have hstamp := hbump.setField (f := fun n => { n with lastAccess := now }) ha fun _ => rfl
  have hoff := hstamp.unlink ha
  have hseg := hoff.setField (f := fun n =>
    if protectedPct = 0 then { n with seg := .segProbation }
    else if n.kind = .entry ∧ n.seg = .segProbation ∧ n.promotable then
      { n with seg := .segProtected }
    else n) ha fun n => by split_ifs <;> rfl
  have hmark := hseg.setField (f := fun n => { n with promotable := true }) ha fun _ => rfl
  have hback := hmark.link ha
  by_cases hpct : protectedPct > 0
  · rw [if_pos hpct, if_pos hpct]
    exact hback.enforceCap protectedPct
  · rw [if_neg hpct, if_neg hpct]
    exact hback

/-! ### The lookup -/

theorem lookup (h : Alike S z w) (keyHash : KeyHash) :
    Shm.lookup w keyHash = Shm.lookup z keyHash := by
  have hmem : ∀ n ∈ inorder z.rbtree, w.mem n.addr = z.mem n.addr := fun n hn =>
    h.mem n.addr (h.tree n.addr (List.mem_map_of_mem hn))
  have htree : w.rbtree = z.rbtree := by rw [h.rest]
  unfold Shm.lookup
  rw [htree]
  congr 1
  exact find_congr fun n hn => by rw [hmem n hn]

/-- The lookup finds nodes of the set. -/
theorem found (h : Alike S z w) {keyHash : KeyHash} {a : Addr}
    (ha : Shm.lookup z keyHash = some a) : a ∈ S := by
  obtain ⟨n, hn, rfl⟩ := Option.map_eq_some_iff.1 ha
  exact h.tree n.addr (List.mem_map_of_mem (mem_of_find hn))

/-! ### Bodies -/

theorem access (h : Alike S z w) (b : BlobId) : Alike S (z.access b) (w.access b) := by
  refine h.move ?_ rfl rfl rfl h.tree h.queued
  obtain ⟨m, β, rfl⟩ := h.refilled
  rfl

theorem freeLocked (h : Alike S z w) (p : Addr) (size : ℕ) :
    Alike S (Shm.freeLocked z p size) (Shm.freeLocked w p size) := by
  obtain ⟨m, β, rfl⟩ := h.refilled
  unfold Shm.freeLocked
  dsimp only
  split_ifs
  · exact h.move rfl rfl rfl rfl h.tree h.queued
  · exact h.move rfl rfl rfl rfl h.tree h.queued

theorem freeBlob (h : Alike S z w) (b : BlobId) (bytes : ℕ) :
    Alike S (Shm.freeBlob z b bytes) (Shm.freeBlob w b bytes) := by
  have hblock := h.freeLocked (z.blob b).addr bytes
  unfold Shm.freeBlob
  dsimp only
  rw [h.addr b]
  refine hblock.move ?_ rfl rfl rfl hblock.tree hblock.queued
  obtain ⟨m, β, he⟩ := hblock.refilled
  rw [he]

theorem release (h : Alike S z w) {b : BlobId} (hb : b < z.slab.serial) :
    Alike S (blobNodeRelease z b) (blobNodeRelease w b) := by
  have hset := (h.access b).setBlob (f := fun r => { r with detached := true, refs := r.refs - 1 })
    hb fun _ => rfl
  unfold blobNodeRelease
  dsimp only
  rw [show (w.access b).blob b = (z.access b).blob b from h.blob b hb]
  split_ifs
  · exact hset.freeBlob b _
  · exact hset

theorem releaseData (h : Alike S z w) {data : Option BlobId}
    (hdata : ∀ b ∈ data, b < z.slab.serial) :
    Alike S (Shm.releaseData z data) (Shm.releaseData w data) := by
  cases data with
  | none => exact h
  | some b => exact h.release (hdata b rfl)

theorem acquire (h : Alike S z w) {b : BlobId} (hb : b < z.slab.serial) :
    Alike S (blobAcquire z b) (blobAcquire w b) :=
  (h.access b).setBlob (f := fun r => { r with refs := r.refs + 1 }) hb fun _ => rfl

theorem pinData (h : Alike S z w) {data : Option BlobId} (hdata : ∀ b ∈ data, b < z.slab.serial) :
    Alike S (Shm.pinData z data) (Shm.pinData w data) := by
  cases data with
  | none => exact h
  | some b => exact h.acquire (hdata b rfl)

/-! ### Eviction -/

theorem nodeSieLive (h : Alike S z w) {a : Addr} (ha : a ∈ S) (now : Time) :
    Shm.nodeSieLive w a now = Shm.nodeSieLive z a now := by
  unfold Shm.nodeSieLive
  rw [h.mem a ha]
  cases hdata : (z.mem a).data with
  | none => cases (z.mem a).kind <;> rfl
  | some b =>
    cases (z.mem a).kind with
    | entry =>
      dsimp only
      rw [h.blob b (h.data a ha b hdata)]
    | counter | marker => rfl

theorem sieAccess (h : Alike S z w) {a : Addr} (ha : a ∈ S) :
    Alike S (Shm.sieAccess z a) (Shm.sieAccess w a) := by
  unfold Shm.sieAccess
  rw [h.mem a ha]
  split
  · exact h.access _
  · exact h

theorem evictWalk (h : Alike S z w) (isOpen : Bool) (now : Time) {queue : List Addr}
    (hq : ∀ q ∈ queue, q ∈ S) :
    Agree S (Shm.evictWalk isOpen now queue z) (Shm.evictWalk isOpen now queue w) := by
  induction queue generalizing z w with
  | nil => exact ⟨h, rfl⟩
  | cons q rest ih =>
    have hqS := hq q (List.mem_cons_self ..)
    rw [Shm.evictWalk, Shm.evictWalk, h.mem q hqS, h.nodeSieLive hqS]
    dsimp only
    split_ifs
    · exact ih ((h.sieAccess hqS).setField (f := fun n => { n with sieSpared := true }) hqS
        fun _ => rfl) fun p hp => hq p (List.mem_cons_of_mem _ hp)
    · exact ⟨h.sieAccess hqS, rfl⟩
    · exact ⟨h, rfl⟩

theorem discountMarker (h : Alike S z w) {a : Addr} (ha : a ∈ S) :
    Alike S (Shm.discountMarker z a) (Shm.discountMarker w a) := by
  unfold Shm.discountMarker
  rw [h.mem a ha]
  obtain ⟨m, β, rfl⟩ := h.refilled
  split_ifs
  · exact h.move rfl rfl rfl rfl h.tree h.queued
  · exact h

variable (rb : Rbtree)

theorem delete (h : Alike S z w) {a : Addr} (ha : a ∈ addrs z.rbtree) :
    Alike S (rbtreeDelete rb { z with nEntries := z.nEntries - 1 } a)
      (rbtreeDelete rb { w with nEntries := w.nEntries - 1 } a) := by
  obtain ⟨m, β, rfl⟩ := h.refilled
  refine h.move rfl rfl rfl rfl (fun c hc => h.tree c ?_) h.queued
  exact List.mem_of_mem_erase (rb.addrs_delete _ _ ha ▸ hc)

/-- **`shm_drop_locked`** reads the node while it has it in its hands. -/
theorem drop (h : Alike S z w) {a : Addr} (ha : a ∈ addrs z.rbtree) :
    Alike S (dropLocked rb z a) (dropLocked rb w a) := by
  have haS := h.tree a ha
  have hgone := ((h.unlink haS).delete rb ha).discountMarker haS
  unfold dropLocked
  dsimp only
  rw [hgone.mem a haS]
  exact (hgone.releaseData (hgone.data a haS)).freeLocked a sizeofNode

theorem take (h : Alike S z w) {a : Addr} (ha : a ∈ addrs z.rbtree) :
    Alike S (evictTake rb z a) (evictTake rb w a) := by
  have hdrop := h.drop rb ha
  refine hdrop.move ?_ rfl rfl rfl hdrop.tree hdrop.queued
  unfold evictTake
  dsimp only
  rw [hdrop.rest]

variable {held pending : List BlobId} {out loose : List Addr} {own : List BlobId}

theorem evictFrom (h : Alike S z w) (hwf : Wf held pending out loose own z) {isOpen : Bool}
    {now : Time} {last : Addr} {queue : List Addr} (hq : ∀ q ∈ queue, q ∈ z.resident)
    (hlast : last ∈ z.resident) :
    Alike S (Shm.evictFrom rb z isOpen now last queue)
      (Shm.evictFrom rb w isOpen now last queue) := by
  obtain ⟨hwalk, hvictim⟩ := h.evictWalk isOpen now fun q hm => h.queued q (hq q hm)
  obtain ⟨hwf', -, hlru, hprot, hfound⟩ := hwf.evictWalk isOpen now hq
  unfold Shm.evictFrom
  dsimp only
  rw [hvictim]
  refine hwalk.take rb (hwf'.queues.mem_tree.2 (Or.inl ?_))
  rw [Zone.resident, hlru, hprot]
  cases hv : (Shm.evictWalk isOpen now queue z).2 with
  | none => exact hlast
  | some q => exact hq q (hfound q hv)

theorem evictOne (h : Alike S z w) (hwf : Wf held pending out loose own z) (now : Time) :
    Agree S (Shm.evictOne rb z now) (Shm.evictOne rb w now) := by
  have hlru : ∀ q ∈ z.lru.reverse, q ∈ z.resident := fun q hq =>
    List.mem_append_left _ (List.mem_reverse.1 hq)
  have hprot : ∀ q ∈ z.lruProtected.reverse, q ∈ z.resident := fun q hq =>
    List.mem_append_right _ (List.mem_reverse.1 hq)
  have hw : w.lru = z.lru ∧ w.lruProtected = z.lruProtected ∧ w.breakerState = z.breakerState := by
    rw [h.rest]
    exact ⟨rfl, rfl, rfl⟩
  unfold Shm.evictOne
  dsimp only
  rw [hw.1, hw.2.1, hw.2.2]
  cases hl : z.lru.reverse with
  | cons last rest =>
    rw [hl] at hlru
    exact ⟨h.evictFrom rb hwf hlru (hlru last (List.mem_cons_self ..)), rfl⟩
  | nil =>
    cases hp : z.lruProtected.reverse with
    | cons last rest =>
      rw [hp] at hprot
      exact ⟨h.evictFrom rb hwf hprot (hprot last (List.mem_cons_self ..)), rfl⟩
    | nil => exact ⟨h, rfl⟩

/-! ### Allocation -/

theorem slabAlloc (h : Alike S z w) : Agree S (Shm.slabAlloc z) (Shm.slabAlloc w) := by
  obtain ⟨m, β, rfl⟩ := h.refilled
  unfold Shm.slabAlloc
  dsimp only
  cases hans : z.slab.answers z.slab.asked with
  | none => exact ⟨h.move rfl rfl rfl rfl h.tree h.queued, rfl⟩
  | some p =>
    dsimp only
    split_ifs
    · exact ⟨h.move rfl rfl rfl rfl h.tree h.queued, rfl⟩
    · exact ⟨h.move rfl rfl rfl rfl h.tree h.queued, rfl⟩

theorem allocLoop (h : Alike S z w) (hwf : Wf held pending out loose own z) (now : Time) (n : ℕ) :
    Agree S (Shm.allocLoop rb now n z) (Shm.allocLoop rb now n w) := by
  induction n generalizing z w with
  | zero =>
    rw [allocLoop_zero, allocLoop_zero]
    exact h.slabAlloc
  | succ n ih =>
    rw [allocLoop_succ, allocLoop_succ]
    obtain ⟨z₁, w₁, r, hz, hw, h₁⟩ := h.slabAlloc.split
    rw [hz, hw]
    cases r with
    | some p => exact ⟨h₁, rfl⟩
    | none =>
      obtain ⟨hwf₁, -, -⟩ := hwf.slabAlloc_none hz
      obtain ⟨hwf₂, -⟩ := hwf₁.evictOne rb now
      obtain ⟨z₂, w₂, did, hz₂, hw₂, h₂⟩ := (h₁.evictOne rb hwf₁ now).split
      rw [hz₂] at hwf₂
      dsimp only
      rw [hz₂, hw₂]
      cases did with
      | true => exact ih h₂ hwf₂
      | false => exact ⟨h₂, rfl⟩

/-- **`shm_alloc_evict`** evicts the same nodes and answers the same. -/
theorem allocEvict (h : Alike S z w) (hwf : Wf held pending out loose own z) (now : Time)
    (size : ℕ) : Agree S (Shm.allocEvict rb z now size) (Shm.allocEvict rb w now size) := by
  have hres : w.resident = z.resident := by rw [h.rest]; rfl
  obtain ⟨z₁, w₁, r, hz, hw, h₁⟩ := (h.allocLoop rb hwf now z.resident.length).split
  unfold Shm.allocEvict
  rw [hres, hz, hw]
  cases r with
  | none => exact ⟨h₁, rfl⟩
  | some p =>
    refine ⟨h₁.move ?_ rfl rfl rfl h₁.tree h₁.queued, rfl⟩
    obtain ⟨m, β, rfl⟩ := h₁.refilled
    rfl

/-- **`blob_alloc`** writes the whole header, and the bytes behind it. -/
theorem blobAlloc (h : Alike S z w) (hwf : Wf held pending out loose own z) (now : Time)
    (data : List UInt8) : Agree S (Shm.blobAlloc rb z now data) (Shm.blobAlloc rb w now data) := by
  obtain ⟨z₁, w₁, r, hz, hw, h₁⟩ :=
    (h.allocEvict rb hwf now (sizeofBlobref + data.length)).split
  unfold Shm.blobAlloc
  rw [hz, hw]
  cases r with
  | none => exact ⟨h₁, rfl⟩
  | some base =>
    obtain ⟨m, β, rfl⟩ := h₁.refilled
    refine ⟨⟨rfl, h₁.mem, fun c hc => ?_, fun c => ?_, fun a ha b hb => ?_, h₁.tree,
      h₁.queued⟩, rfl⟩
    · show Function.update β z₁.slab.serial _ c = Function.update z₁.blob z₁.slab.serial _ c
      by_cases hcs : c = z₁.slab.serial
      · rw [hcs, Function.update_self, Function.update_self]
      · rw [Function.update_of_ne hcs, Function.update_of_ne hcs]
        exact h₁.blob c (Nat.lt_of_le_of_ne (Nat.le_of_lt_succ hc) hcs)
    · show (Function.update β z₁.slab.serial _ c).addr =
        (Function.update z₁.blob z₁.slab.serial _ c).addr
      by_cases hcs : c = z₁.slab.serial
      · rw [hcs, Function.update_self, Function.update_self]
      · rw [Function.update_of_ne hcs, Function.update_of_ne hcs]
        exact h₁.addr c
    · exact Nat.lt_succ_of_lt (h₁.data a ha b hb)

/-! ### Storing and purging -/

theorem shmAdmit (h : Alike S z w) (hash : UInt32) :
    Agree S (Shm.shmAdmit z hash) (Shm.shmAdmit w hash) := by
  have hw : w.admission = z.admission ∧ w.sketch = z.sketch ∧ w.lru = z.lru := by
    rw [h.rest]
    exact ⟨rfl, rfl, rfl⟩
  unfold Shm.shmAdmit
  rw [hw.1, hw.2.1, hw.2.2]
  split_ifs
  · exact ⟨h, rfl⟩
  · exact ⟨h, rfl⟩
  · cases hl : z.lru.getLast? with
    | none => exact ⟨h, rfl⟩
    | some victim =>
      have hv := h.queued victim (List.mem_append_left _ (List.mem_of_getLast? hl))
      dsimp only
      rw [h.mem victim hv]
      split_ifs
      · refine ⟨h.move ?_ rfl rfl rfl h.tree h.queued, rfl⟩
        obtain ⟨m, β, rfl⟩ := h.refilled
        rfl
      · exact ⟨h, rfl⟩

/-- The body just allocated has a serial number. -/
theorem body_lt {z₁ : Zone} {now : Time} {data : List UInt8} {b : BlobId}
    (hwf : Wf held pending out loose own z) (hr : Shm.blobAlloc rb z now data = (z₁, some b)) :
    b < z₁.slab.serial := by
  obtain ⟨hwf₁, -⟩ := hwf.blobAlloc rb hr
  exact hwf₁.heap.live_lt (hwf₁.heap.own_live b (List.mem_append_right _ List.mem_cons_self))

/-- The refresh path writes the node it has, and keeps what it does not write. -/
theorem storeRefresh (h : Alike S z w) (hwf : Wf held pending out loose own z) {a : Addr}
    (ha : a ∈ z.resident) (now : Time) (data : List UInt8) (freshTtl staleTtl : Time) :
    Agree S (Shm.storeRefresh rb z now data freshTtl staleTtl a)
      (Shm.storeRefresh rb w now data freshTtl staleTtl a) := by
  have haS := h.queued a ha
  have hoff := h.unlink haS
  obtain ⟨z₁, w₁, r, hz, hw, h₁⟩ := (hoff.blobAlloc rb (hwf.unlink ha) now data).split
  unfold Shm.storeRefresh
  rw [hz, hw]
  cases r with
  | none => exact ⟨h₁.link haS, rfl⟩
  | some body =>
    have hbody := body_lt rb (hwf.unlink ha) hz
    have hserial : (Shm.releaseData z₁ (z₁.mem a).data).slab.serial = z₁.slab.serial :=
      congrArg (fun l => l.2.2.2.1) (rest_releaseData z₁ (z₁.mem a).data)
    dsimp only
    rw [h₁.mem a haS]
    have hfree := h₁.releaseData (h₁.data a haS)
    refine ⟨Alike.link (hfree.setNode haS fun b hb => ?_) haS, rfl⟩
    obtain rfl := Option.some.inj hb
    exact hserial ▸ hbody

theorem pinWritten {r r' : Zone × Rc × Option Addr} (h : Agree S r r') (wanted : Bool)
    (hr : ∀ a ∈ r.2.2, a ∈ S) : Agree S (Shm.pinWritten wanted r) (Shm.pinWritten wanted r') := by
  obtain ⟨z₁, w₁, ⟨rc, written⟩, rfl, rfl, h₁⟩ := h.split
  unfold Shm.pinWritten
  cases rc with
  | declined | error | again => exact ⟨h₁, rfl⟩
  | ok =>
    cases written with
    | none => exact ⟨h₁, rfl⟩
    | some a =>
      have ha := hr a rfl
      dsimp only
      rw [h₁.mem a ha]
      split_ifs
      · cases hdata : (z₁.mem a).data with
        | none => exact ⟨h₁, rfl⟩
        | some b => exact ⟨h₁.acquire (h₁.data a ha b hdata), rfl⟩
      · exact ⟨h₁, rfl⟩

theorem storeIfRefuses (h : Alike S z w) {ctn : Option Addr} (hctn : ∀ a ∈ ctn, a ∈ S)
    (now freshTtl : Time) (predicate : StoreIf) :
    Shm.storeIfRefuses w ctn now freshTtl predicate =
      Shm.storeIfRefuses z ctn now freshTtl predicate := by
  unfold Shm.storeIfRefuses
  cases ctn with
  | none => rfl
  | some a =>
    dsimp only
    rw [h.mem a (hctn a rfl)]

theorem freshen (h : Alike S z w) (keyHash : KeyHash) (now freshTtl staleTtl : Time) :
    Agree S (Shm.freshen z keyHash now freshTtl staleTtl)
      (Shm.freshen w keyHash now freshTtl staleTtl) := by
  unfold Shm.freshen
  rw [h.lookup]
  cases hl : Shm.lookup z keyHash with
  | none => exact ⟨h, rfl⟩
  | some a =>
    dsimp only
    rw [h.mem a (h.found hl)]
    by_cases hbare : (z.mem a).kind ≠ .entry ∨ (z.mem a).len = 0
    · rw [if_pos hbare, if_pos hbare]
      exact ⟨h, rfl⟩
    · rw [if_neg hbare, if_neg hbare]
      refine h.wrote (h.found hl) ?_ _
      exact fun _ => rfl

theorem purgeKey (h : Alike S z w) (hwf : Wf held pending [] loose own z) (keyHash : KeyHash) :
    Agree S (Shm.purgeKey rb z keyHash) (Shm.purgeKey rb w keyHash) := by
  unfold Shm.purgeKey
  rw [h.lookup]
  cases hl : Shm.lookup z keyHash with
  | none => exact ⟨h, rfl⟩
  | some a =>
    have ha := hwf.queues.mem_tree.2 (Or.inl (hwf.queues.lookup_resident hl).1)
    exact ⟨h.drop rb ha, rfl⟩

theorem purgeIfBlob (h : Alike S z w) (hwf : Wf held pending [] loose own z) (keyHash : KeyHash)
    (stored : BlobId) :
    Agree S (Shm.purgeIfBlob rb z keyHash stored) (Shm.purgeIfBlob rb w keyHash stored) := by
  unfold Shm.purgeIfBlob
  rw [h.lookup]
  cases hl : Shm.lookup z keyHash with
  | none => exact ⟨h, rfl⟩
  | some a =>
    have ha := hwf.queues.mem_tree.2 (Or.inl (hwf.queues.lookup_resident hl).1)
    dsimp only
    rw [h.mem a (h.found hl)]
    cases (z.mem a).data with
    | none => exact ⟨h, rfl⟩
    | some b =>
      dsimp only
      rw [h.addr b, h.addr stored]
      split_ifs
      · exact ⟨h, rfl⟩
      · exact ⟨h.drop rb ha, rfl⟩

theorem dropHeads (h : Alike S z w) (hwf : Wf held pending out loose own z)
    {queue : Zone → List Addr} (hqueue : ∀ z, ∀ a ∈ queue z, a ∈ z.resident)
    (hsame : ∀ {z w}, Alike S z w → queue w = queue z) (limit : ℕ) :
    Agree S (Shm.dropHeads rb queue limit z) (Shm.dropHeads rb queue limit w) := by
  induction limit generalizing z w with
  | zero => exact ⟨h, rfl⟩
  | succ limit ih =>
    rw [Shm.dropHeads, Shm.dropHeads, hsame h]
    cases hq : queue z with
    | nil => exact ⟨h, rfl⟩
    | cons head rest =>
      have hres := hqueue z head (hq ▸ List.mem_cons_self ..)
      have hdrop := h.drop rb (hwf.queues.mem_tree.2 (Or.inl hres))
      obtain ⟨hrest, hcount⟩ := ih hdrop (hwf.drop rb hres)
      exact ⟨hrest, congrArg (· + 1) hcount⟩

theorem purgeBatch (h : Alike S z w) (hwf : Wf held pending [] [] [] z) (remaining : ℕ) :
    Agree S (Shm.purgeBatch rb z remaining) (Shm.purgeBatch rb w remaining) := by
  have hlru : ∀ z : Zone, ∀ a ∈ z.lru, a ∈ z.resident := fun _ _ ha => List.mem_append_left _ ha
  have hprot : ∀ z : Zone, ∀ a ∈ z.lruProtected, a ∈ z.resident := fun _ _ ha =>
    List.mem_append_right _ ha
  obtain ⟨h₁, hcount₁⟩ := h.dropHeads rb hwf hlru (fun h => by rw [h.rest])
    (min purgeBatchMax remaining)
  obtain ⟨hwf₁, -⟩ := hwf.dropHeads rb Zone.lru hlru (min purgeBatchMax remaining)
  obtain ⟨h₂, hcount₂⟩ := h₁.dropHeads rb hwf₁ hprot (fun h => by rw [h.rest])
    (min purgeBatchMax remaining - (Shm.dropHeads rb Zone.lru (min purgeBatchMax remaining) z).2)
  unfold Shm.purgeBatch
  dsimp only
  rw [hcount₁]
  exact ⟨h₂, congrArg (_ + ·) hcount₂⟩

theorem purgeLoop (h : Alike S z w) (hwf : Wf held pending [] [] [] z)
    (fuel remaining purged : ℕ) :
    Agree S (Shm.purgeLoop rb fuel z remaining purged)
      (Shm.purgeLoop rb fuel w remaining purged) := by
  induction fuel generalizing z w remaining purged with
  | zero => exact ⟨h, rfl⟩
  | succ fuel ih =>
    obtain ⟨h₁, hcount⟩ := h.purgeBatch rb hwf remaining
    obtain ⟨hwf₁, -⟩ := hwf.purgeBatch rb remaining
    have hres : (Shm.purgeBatch rb w remaining).1.resident =
        (Shm.purgeBatch rb z remaining).1.resident := by rw [h₁.rest]; rfl
    rw [Shm.purgeLoop, Shm.purgeLoop]
    dsimp only
    rw [hcount, hres]
    split_ifs
    · exact ⟨h, rfl⟩
    · exact ⟨h₁, rfl⟩
    · exact ⟨h₁, rfl⟩
    · exact ih h₁ hwf₁ _ _

theorem purgeAll (h : Alike S z w) (hwf : Wf held pending [] [] [] z) :
    Agree S (Shm.purgeAll rb z) (Shm.purgeAll rb w) := by
  have hw : w.nEntries = z.nEntries ∧ w.resident = z.resident := by
    rw [h.rest]
    exact ⟨rfl, rfl⟩
  unfold Shm.purgeAll
  rw [hw.1, hw.2]
  split_ifs
  · exact ⟨h, rfl⟩
  · exact h.purgeLoop rb hwf _ _ _

/-! ### Leases, memos and the lookup of a request -/

theorem touchFound (h : Alike S z w) (keyHash : KeyHash) (now : Time) (protectedPct : ℕ)
    (hash : UInt32) : Alike S (Shm.touchFound z keyHash now protectedPct hash)
      (Shm.touchFound w keyHash now protectedPct hash) := by
  unfold Shm.touchFound
  rw [h.lookup]
  cases hl : Shm.lookup z keyHash with
  | none => exact h
  | some a => exact h.touch (h.found hl) now protectedPct hash

theorem owns (h : Alike S z w) (keyHash : KeyHash) (owner : ℕ) :
    Shm.owns w keyHash owner = Shm.owns z keyHash owner := by
  unfold Shm.owns
  rw [h.lookup]
  cases hl : Shm.lookup z keyHash with
  | none => rfl
  | some a =>
    dsimp only
    rw [h.mem a (h.found hl)]

theorem unstub (h : Alike S z w) (hwf : Wf held pending [] loose own z) (keyHash : KeyHash)
    (owner : ℕ) (now : Time) :
    Alike S (Shm.unstub rb z keyHash owner now) (Shm.unstub rb w keyHash owner now) := by
  unfold Shm.unstub
  rw [h.lookup]
  split_ifs
  · exact h
  cases hl : Shm.lookup z keyHash with
  | none => exact h
  | some a =>
    have haS := h.found hl
    have ha := hwf.queues.mem_tree.2 (Or.inl (hwf.queues.lookup_resident hl).1)
    have hlet := h.setField (f := fun n => { n with
      refreshing := false, refreshLockUntil := 0, refreshOwner := 0 }) haS fun _ => rfl
    dsimp only
    rw [h.mem a haS]
    split_ifs
    · exact ((hlet.unlink haS).delete rb ha).freeLocked a sizeofNode
    · exact hlet
    · exact h

theorem l2NegCheck (h : Alike S z w) (keyHash : KeyHash) (hash : UInt32) (now : Time) :
    Agree S (Shm.l2NegCheck z keyHash hash now) (Shm.l2NegCheck w keyHash hash now) := by
  unfold Shm.l2NegCheck
  rw [h.lookup]
  cases hl : Shm.lookup z keyHash with
  | none => exact ⟨h, rfl⟩
  | some a =>
    dsimp only
    rw [h.mem a (h.found hl)]
    split_ifs
    · exact ⟨h.touch (h.found hl) now 0 hash, rfl⟩
    · exact ⟨h, rfl⟩

theorem varidxPendingSet (h : Alike S z w) (keyHash : KeyHash) (mark : Bool) :
    Alike S (Shm.varidxPendingSet z keyHash mark) (Shm.varidxPendingSet w keyHash mark) := by
  unfold Shm.varidxPendingSet
  rw [h.lookup]
  cases hl : Shm.lookup z keyHash with
  | none => exact h
  | some a =>
    dsimp only
    rw [h.mem a (h.found hl)]
    split_ifs
    · refine h.setField (h.found hl) ?_
      exact fun _ => rfl
    · exact h

theorem serveStale (h : Alike S z w) {a : Addr} (ha : a ∈ S) (hash : UInt32) (now : Time)
    (q : L1Req) : Agree S (Shm.serveStale z a hash now q) (Shm.serveStale w a hash now q) := by
  have ht := h.touch ha now q.protectedPct hash
  have hpin := ht.pinData (ht.data a ha)
  unfold Shm.serveStale
  dsimp only
  rw [ht.mem a ha]
  split_ifs
  · exact ⟨hpin, rfl⟩
  · exact ⟨ht, rfl⟩
  · exact ⟨ht, rfl⟩
  · refine hpin.wrote ha ?_ _
    exact fun _ => rfl
  · exact ⟨ht, rfl⟩
  · exact ⟨hpin, rfl⟩

theorem sieArmed (h : Alike S z w) {a : Addr} (ha : a ∈ S) (now : Time) :
    Shm.sieArmed w a now = Shm.sieArmed z a now := by
  unfold Shm.sieArmed
  rw [h.mem a ha]
  cases hdata : (z.mem a).data with
  | none => rfl
  | some b =>
    dsimp only
    rw [h.blob b (h.data a ha b hdata)]

theorem armSnapshots (h : Alike S z w) {a : Addr} (ha : a ∈ S) (now : Time) (q : L1Req) :
    Agree S (Shm.armSnapshots z a now q) (Shm.armSnapshots w a now q) := by
  unfold Shm.armSnapshots
  rw [h.mem a ha]
  cases hdata : (z.mem a).data with
  | none => exact ⟨h, rfl⟩
  | some b =>
    have hb := h.data a ha b hdata
    dsimp only
    by_cases hlen : (z.mem a).len = 0
    · rw [if_pos hlen, if_pos hlen]
      exact ⟨h, rfl⟩
    rw [if_neg hlen, if_neg hlen]
    -- the breaker's reference, then the header read, then the second reference
    have hread : ∀ {z₁ w₁ : Zone} (armed : List BlobId), Alike S z₁ w₁ → b < z₁.slab.serial →
        Agree S
          (if (q.sieArm && Shm.sieArmed (if q.sieArm then z₁.access b else z₁) a now) = true then
            (blobAcquire (if q.sieArm then z₁.access b else z₁) b, L1Verdict.expired (b :: armed))
          else (if q.sieArm then z₁.access b else z₁, L1Verdict.expired armed))
          (if (q.sieArm && Shm.sieArmed (if q.sieArm then w₁.access b else w₁) a now) = true then
            (blobAcquire (if q.sieArm then w₁.access b else w₁) b, L1Verdict.expired (b :: armed))
          else (if q.sieArm then w₁.access b else w₁, L1Verdict.expired armed)) := by
      intro z₁ w₁ armed h₁ hb₁
      cases q.sieArm with
      | false => exact ⟨h₁, rfl⟩
      | true =>
        have hacc := h₁.access b
        simp only [if_true, Bool.true_and]
        rw [hacc.sieArmed ha]
        split_ifs
        · exact ⟨hacc.acquire hb₁, rfl⟩
        · exact ⟨hacc, rfl⟩
    cases q.brkArm with
    | true => exact hread [b] (h.acquire hb) hb
    | false => exact hread [] h hb

theorem accessL1 (h : Alike S z w) (keyHash : KeyHash) (hash : UInt32) (now : Time) (q : L1Req) :
    Agree S (Shm.accessL1 z keyHash hash now q) (Shm.accessL1 w keyHash hash now q) := by
  unfold Shm.accessL1
  rw [h.lookup]
  cases hl : Shm.lookup z keyHash with
  | none => exact ⟨h, rfl⟩
  | some a =>
    have ha := h.found hl
    have hcons := h.setField (f := fun n => { n with varidxPending := false }) ha fun _ => rfl
    dsimp only
    rw [h.mem a ha]
    split_ifs
    · exact ⟨(hcons.pinData (h.data a ha)).touch ha now q.protectedPct hash, rfl⟩
    · exact h.serveStale ha hash now q
    · exact hcons.armSnapshots ha now q

/-! ### A new node -/

/-- **A new node enters the set**, whatever its block held: what is written into it
must not depend on the block. -/
theorem create {p : Addr} (h : Alike (S \ {p}) z w) {write : Node → Node}
    (hwrite : ∀ n n', (write n').linked = (write n).linked)
    (hdata : ∀ n, ∀ b ∈ (write n).data, b < z.slab.serial) :
    Alike (insert p S) (createNode rb z p write) (createNode rb w p write) := by
  have hmem : ∀ z : Zone, ∀ a, (createNode rb z p write).mem a =
      if a = p then (write (z.mem p)).linked else z.mem a := by
    intro z a
    by_cases ha : a = p
    · rw [ha, if_pos rfl, createNode_mem]
      rfl
    · rw [if_neg ha]
      simp [createNode, lruInsertNew, rbtreeInsert, Zone.setNode, ha]
  have hkey : ((w.setNode p write).mem p).key = ((z.setNode p write).mem p).key := by
    rw [setNode_mem_self, setNode_mem_self]
    have hlinked := congrArg Node.key (hwrite (z.mem p) (w.mem p))
    exact hlinked
  have hins : rbtreeInsertValue (w.setNode p write).mem p z.rbtree =
      rbtreeInsertValue (z.setNode p write).mem p z.rbtree := by
    refine rbtreeInsertValue_congr hkey fun a ha => ?_
    have hne : a ≠ p := fun he => (h.tree a ha).2 he
    rw [setNode_mem_of_ne w hne, setNode_mem_of_ne z hne, h.mem a (h.tree a ha)]
  refine ⟨?_, fun a ha => ?_, h.blob, h.addr, fun a ha b hb => ?_, fun a ha => ?_, fun a ha => ?_⟩
  · have htree : (createNode rb w p write).rbtree = (createNode rb z p write).rbtree := by
      show rb.repair (rbtreeInsertValue (w.setNode p write).mem p w.rbtree) p = _
      rw [show w.rbtree = z.rbtree by rw [h.rest], hins]
      rfl
    obtain ⟨m, β, rfl⟩ := h.refilled
    exact congrArg (fun t => { createNode rb { z with mem := m, blob := β } p write with
      rbtree := t }) htree
  · rw [hmem, hmem]
    split_ifs with hap
    · exact hwrite _ _
    · exact h.mem a ⟨ha.resolve_left hap, hap⟩
  · rw [hmem] at hb
    split_ifs at hb with hap
    · exact hdata _ b hb
    · exact h.data a ⟨ha.resolve_left hap, hap⟩ b hb
  · have hperm : (addrs (createNode rb z p write).rbtree).Perm (p :: addrs z.rbtree) := by
      show (addrs (rb.repair _ p)).Perm _
      rw [rb.addrs_repair]
      exact addrs_rbtreeInsertValue _ _ _
    rcases List.mem_cons.1 (hperm.mem_iff.1 ha) with rfl | ha
    · exact Set.mem_insert _ _
    · exact Set.mem_insert_of_mem _ (h.tree a ha).1
  · rcases List.mem_cons.1 ha with rfl | ha
    · exact Set.mem_insert _ _
    · exact Set.mem_insert_of_mem _ (h.queued a ha).1

/-- A new node without a body. -/
theorem createBare {p : Addr} (h : Alike (S \ {p}) z w) {write : Node → Node}
    (hwrite : ∀ n n', (write n').linked = (write n).linked) (hdata : ∀ n, (write n).data = none) :
    Alike (insert p S) (createNode rb z p write) (createNode rb w p write) :=
  h.create rb hwrite fun n b hb => by
    rw [hdata n] at hb
    cases hb

end Alike

end Shm
end CacheTurbo
