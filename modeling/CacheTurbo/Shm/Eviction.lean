/-
# What an allocation may do to the rest of the zone

`shm_alloc_evict` may evict any number of other nodes before it succeeds or
gives up, in the middle of an operation that has a node off its queue.
`Evicts z z'` says all that evictions do to what they leave behind: the queues
lose nodes, a survivor may be marked as spared once, and every field a lock-held
function reads of a node off the queues, of the owner sequence or of a body is
what it was.  The specs of `evictOne`, `allocEvict` and `blobAlloc` give the zone
invariant and this frame at once, so no caller looks into the loop.
-/

import CacheTurbo.Shm.Wf

namespace CacheTurbo
namespace Shm

/-- What evictions leave of the rest of the zone. -/
structure Evicts (z z' : Zone) : Prop where
  lru : z'.lru.Sublist z.lru
  lruProtected : z'.lruProtected.Sublist z.lruProtected
  spared : ∀ a, z'.mem a = z.mem a ∨ z'.mem a = { z.mem a with sieSpared := true }
  off : ∀ a, a ∉ z.resident → z'.mem a = z.mem a
  ownerSeq : z'.ownerSeq = z.ownerSeq
  breakerState : z'.breakerState = z.breakerState
  sketch : z'.sketch = z.sketch
  serial : z.slab.serial ≤ z'.slab.serial
  content : ∀ b < z.slab.serial, (z'.blob b).content = (z.blob b).content

namespace Evicts

variable {z z' z'' : Zone}

theorem refl (z : Zone) : Evicts z z :=
  ⟨List.Sublist.refl _, List.Sublist.refl _, fun _ => Or.inl rfl, fun _ _ => rfl, rfl, rfl, rfl,
    le_rfl, fun _ _ => rfl⟩

theorem resident (h : Evicts z z') : z'.resident.Sublist z.resident := h.lru.append h.lruProtected

theorem trans (h : Evicts z z') (h' : Evicts z' z'') : Evicts z z'' where
  lru := h'.lru.trans h.lru
  lruProtected := h'.lruProtected.trans h.lruProtected
  spared a := by
    rcases h'.spared a with h2 | h2 <;> rcases h.spared a with h1 | h1 <;> rw [h2, h1]
    · exact Or.inl rfl
    · exact Or.inr rfl
    · exact Or.inr rfl
    · exact Or.inr rfl
  off a ha := by rw [h'.off a fun hc => ha (h.resident.subset hc), h.off a ha]
  ownerSeq := h'.ownerSeq.trans h.ownerSeq
  breakerState := h'.breakerState.trans h.breakerState
  sketch := h'.sketch.trans h.sketch
  serial := h.serial.trans h'.serial
  content b hb := by rw [h'.content b (lt_of_lt_of_le hb h.serial), h.content b hb]

/-- A survivor differs at most in its `sie_spared` mark. -/
theorem field (h : Evicts z z') {α : Type} (f : Node → α)
    (hf : ∀ n : Node, f { n with sieSpared := true } = f n) (a : Addr) :
    f (z'.mem a) = f (z.mem a) := by
  rcases h.spared a with he | he
  · rw [he]
  · rw [he, hf]

end Evicts

/-- What neither linkage nor the heap's book-keeping covers: the owner sequence,
the breaker word, the sketch, and the bytes of the bodies. -/
def Zone.rest (z : Zone) : ℕ × ℕ × Sketch × ℕ × (BlobId → ℕ × List UInt8) :=
  (z.ownerSeq, z.breakerState, z.sketch, z.slab.serial, fun b => (z.blob b).content)

theorem rest_freeLocked (z : Zone) (p : Addr) (size : ℕ) : (freeLocked z p size).rest = z.rest := by
  unfold freeLocked
  split_ifs <;> rfl

theorem rest_freeBlob (z : Zone) (b : BlobId) (bytes : ℕ) : (freeBlob z b bytes).rest = z.rest :=
  rest_freeLocked z (z.blob b).addr bytes

theorem rest_setBlob (z : Zone) (b : BlobId) {f : Blob → Blob}
    (hf : (f (z.blob b)).content = (z.blob b).content) : (z.setBlob b f).rest = z.rest := by
  have hbody : (fun c => ((z.setBlob b f).blob c).content) = fun c => (z.blob c).content := by
    funext c
    by_cases hc : c = b
    · subst hc; simpa [Zone.setBlob] using hf
    · simp [Zone.setBlob, hc]
  show (_, _, _, _, fun c => ((z.setBlob b f).blob c).content) = _
  rw [hbody]
  rfl

theorem rest_blobAcquire (z : Zone) (b : BlobId) : (blobAcquire z b).rest = z.rest :=
  rest_setBlob (z.access b) b (f := fun r => { r with refs := r.refs + 1 }) rfl

/-- Statements that leave `rest` alone leave the bytes of the bodies alone. -/
theorem content_of_rest {z z' : Zone} (h : z'.rest = z.rest) (b : BlobId) :
    (z'.blob b).content = (z.blob b).content := congrFun (congrArg (fun l => l.2.2.2.2) h) b

theorem rest_releaseData (z : Zone) (data : Option BlobId) : (releaseData z data).rest = z.rest := by
  cases data with
  | none => rfl
  | some b =>
    have hset : ((z.access b).setBlob b fun r =>
        { r with detached := true, refs := r.refs - 1 }).rest = z.rest := rest_setBlob _ b rfl
    show (blobNodeRelease z b).rest = _
    unfold blobNodeRelease
    dsimp only
    split_ifs
    · exact (rest_freeBlob _ b _).trans hset
    · exact hset

/-- The frame of a step that only takes nodes off the queues. -/
theorem Evicts.of_rest {z z' : Zone} (hlru : z'.lru.Sublist z.lru)
    (hprot : z'.lruProtected.Sublist z.lruProtected) (hmem : z'.mem = z.mem)
    (hrest : z'.rest = z.rest) : Evicts z z' := by
  simp only [Zone.rest, Prod.mk.injEq] at hrest
  obtain ⟨h1, h2, h3, h4, h5⟩ := hrest
  exact ⟨hlru, hprot, fun a => Or.inl (by rw [hmem]), fun a _ => by rw [hmem], h1, h2, h3, h4.ge,
    fun b _ => congrFun h5 b⟩

variable (rb : Rbtree)

theorem allocLoop_zero (now : Time) (z : Zone) : allocLoop rb now 0 z = slabAlloc z := by
  unfold allocLoop
  split <;> rename_i he <;> exact he.symm

theorem allocLoop_succ (now : Time) (n : ℕ) (z : Zone) :
    allocLoop rb now (n + 1) z =
      match slabAlloc z with
      | (z, some p) => (z, some p)
      | (z, none) =>
          match evictOne rb z now with
          | (z, true) => allocLoop rb now n z
          | (z, false) => (z, none) := by
  have h := allocLoop.eq_def rb now (n + 1) z
  dsimp only at h
  cases hs : slabAlloc z with
  | mk z' r =>
    rw [hs] at h
    cases r <;> exact h

theorem links_dropLocked (z : Zone) (a : Addr) : (dropLocked rb z a).links =
    (rb.delete z.rbtree a, z.lru.erase a, z.lruProtected.erase a, (lruUnlink z a).nProtected,
      z.nEntries - 1, z.mem) := by
  unfold dropLocked
  dsimp only
  rw [links_freeLocked, links_releaseData]
  unfold discountMarker
  split_ifs <;> rfl

theorem rest_dropLocked (z : Zone) (a : Addr) : (dropLocked rb z a).rest = z.rest := by
  unfold dropLocked
  dsimp only
  rw [rest_freeLocked, rest_releaseData]
  unfold discountMarker
  split_ifs <;> rfl

theorem mem_dropLocked (z : Zone) (a : Addr) : (dropLocked rb z a).mem = z.mem :=
  congrArg (fun l => l.2.2.2.2.2) (links_dropLocked rb z a)

theorem lru_dropLocked (z : Zone) (a : Addr) : (dropLocked rb z a).lru = z.lru.erase a :=
  congrArg (fun l => l.2.1) (links_dropLocked rb z a)

theorem lruProtected_dropLocked (z : Zone) (a : Addr) :
    (dropLocked rb z a).lruProtected = z.lruProtected.erase a :=
  congrArg (fun l => l.2.2.1) (links_dropLocked rb z a)

theorem Evicts.drop (z : Zone) (a : Addr) : Evicts z (dropLocked rb z a) :=
  .of_rest (lru_dropLocked rb z a ▸ List.erase_sublist)
    (lruProtected_dropLocked rb z a ▸ List.erase_sublist) (mem_dropLocked rb z a)
    (rest_dropLocked rb z a)

namespace Wf

variable {held pending : List BlobId} {out loose : List Addr} {own : List BlobId} {z z' : Zone}

/-- Reading the header of a queued node's body is no use after free. -/
theorem sieAccess_eq (h : Wf held pending out loose own z) {q : Addr} (hq : q ∈ z.resident) :
    sieAccess z q = z := by
  unfold sieAccess
  split
  next b _ hb => exact Heap.access_eq (h.own_live hq hb)
  next => rfl

/-- The walk of `shm_evict_one` marks nodes it passes over and stops at a node
of the queue. -/
theorem evictWalk {queue : List Addr} (h : Wf held pending out loose own z) (isOpen : Bool)
    (now : Time) (hq : ∀ q ∈ queue, q ∈ z.resident) :
    let r := Shm.evictWalk isOpen now queue z
    Wf held pending out loose own r.1 ∧ Evicts z r.1 ∧ r.1.lru = z.lru ∧
      r.1.lruProtected = z.lruProtected ∧ ∀ q ∈ r.2, q ∈ queue := by
  induction queue generalizing z with
  | nil => exact ⟨h, Evicts.refl z, rfl, rfl, by simp [Shm.evictWalk]⟩
  | cons q rest ih =>
    have hqr : q ∈ z.resident := hq q (List.mem_cons_self ..)
    simp only [Shm.evictWalk, h.sieAccess_eq hqr]
    split_ifs
    · set z₁ := z.setNode q fun n => { n with sieSpared := true } with hz₁
      have hmark : Evicts z z₁ := by
        refine ⟨List.Sublist.refl _, List.Sublist.refl _, fun a => ?_, fun a ha => ?_, rfl, rfl, rfl,
          le_rfl, fun _ _ => rfl⟩
        · by_cases haq : a = q
          · subst haq; exact Or.inr (by simp [hz₁, Zone.setNode])
          · exact Or.inl (by simp [hz₁, Zone.setNode, haq])
        · have hne : a ≠ q := by rintro rfl; exact ha hqr
          simp [hz₁, Zone.setNode, hne]
      have hwf : Wf held pending out loose own z₁ :=
        h.setNode_same q (f := fun n => { n with sieSpared := true }) rfl
      obtain ⟨h1, h2, h3, h4, h5⟩ := ih hwf fun p hp => hq p (List.mem_cons_of_mem _ hp)
      exact ⟨h1, hmark.trans h2, h3, h4, fun p hp => List.mem_cons_of_mem _ (h5 p hp)⟩
    · exact ⟨h, Evicts.refl z, rfl, rfl, by simp⟩
    · exact ⟨h, Evicts.refl z, rfl, rfl, by simp⟩

theorem resident_drop (h : Wf held pending out loose own z) (a : Addr) :
    (dropLocked rb z a).resident = z.resident.erase a := by
  rw [← h.queues.resident_unlink a]
  unfold Zone.resident
  rw [lru_dropLocked, lruProtected_dropLocked]
  rfl

/-- The take site: a node is dropped and counted. -/
theorem take (h : Wf held pending out loose own z) {a : Addr} (ha : a ∈ z.resident) :
    Wf held pending out loose own (evictTake rb z a) ∧ Evicts z (evictTake rb z a) ∧
      (evictTake rb z a).resident = z.resident.erase a := by
  set d := dropLocked rb z a with hd
  have hdrop : Wf held pending out loose own d := h.drop rb ha
  have hev : Evicts z d := Evicts.drop rb z a
  have hres : d.resident = z.resident.erase a := h.resident_drop rb a
  have htake : evictTake rb z a = { d with evictions := d.evictions + 1 } := rfl
  rw [htake]
  exact ⟨hdrop.of_eq rfl rfl,
    hev.trans (.of_rest (List.Sublist.refl _) (List.Sublist.refl _) rfl rfl), hres⟩

/-- One eviction from a queue takes one node out and keeps the invariant. -/
theorem evictFrom {isOpen : Bool} {now : Time} {last : Addr} {queue : List Addr}
    (h : Wf held pending out loose own z) (hq : ∀ q ∈ queue, q ∈ z.resident)
    (hlast : last ∈ z.resident) :
    let z' := Shm.evictFrom rb z isOpen now last queue
    Wf held pending out loose own z' ∧ Evicts z z' ∧ z'.resident.length + 1 = z.resident.length := by
  obtain ⟨h1, h2, h3, h4, h5⟩ := h.evictWalk isOpen now hq
  set r := Shm.evictWalk isOpen now queue z with hr
  have hres : r.1.resident = z.resident := by unfold Zone.resident; rw [h3, h4]
  have hvictim : r.2.getD last ∈ r.1.resident := by
    rw [hres]
    cases hv : r.2 with
    | none => exact hlast
    | some q => exact hq q (h5 q hv)
  obtain ⟨h6, h7, h8⟩ := h1.take rb hvictim
  refine ⟨h6, h2.trans h7, ?_⟩
  show (evictTake rb r.1 (r.2.getD last)).resident.length + 1 = z.resident.length
  have hpos := List.length_pos_of_mem hvictim
  rw [h8, List.length_erase_of_mem hvictim, ← hres]
  omega

/-- **`shm_evict_one`** takes exactly one node out when it answers that it did,
and changes nothing otherwise. -/
theorem evictOne (h : Wf held pending out loose own z) (now : Time) :
    let r := Shm.evictOne rb z now
    Wf held pending out loose own r.1 ∧ Evicts z r.1 ∧
      (r.2 = true → r.1.resident.length + 1 = z.resident.length) ∧
      (r.2 = false → r.1 = z ∧ z.resident = []) := by
  have hlru : ∀ q ∈ z.lru.reverse, q ∈ z.resident := fun q hq =>
    List.mem_append_left _ (List.mem_reverse.1 hq)
  have hprot : ∀ q ∈ z.lruProtected.reverse, q ∈ z.resident := fun q hq =>
    List.mem_append_right _ (List.mem_reverse.1 hq)
  unfold Shm.evictOne
  dsimp only
  cases hl : z.lru.reverse with
  | cons last rest =>
    rw [hl] at hlru
    obtain ⟨h1, h2, h3⟩ := h.evictFrom rb hlru (hlru last (List.mem_cons_self ..))
    exact ⟨h1, h2, fun _ => h3, nofun⟩
  | nil =>
    cases hp : z.lruProtected.reverse with
    | cons last rest =>
      rw [hp] at hprot
      obtain ⟨h1, h2, h3⟩ := h.evictFrom rb hprot (hprot last (List.mem_cons_self ..))
      exact ⟨h1, h2, fun _ => h3, nofun⟩
    | nil =>
      refine ⟨h, Evicts.refl z, nofun, fun _ => ⟨rfl, ?_⟩⟩
      unfold Zone.resident
      rw [List.reverse_eq_nil_iff.1 hl, List.reverse_eq_nil_iff.1 hp]
      rfl

/-- A failed allocation changes nothing that the invariant or the frame reads. -/
theorem slabAlloc_none (h : Wf held pending out loose own z) (ha : slabAlloc z = (z', none)) :
    Wf held pending out loose own z' ∧ Evicts z z' ∧ z'.resident = z.resident := by
  obtain rfl := Heap.slabAlloc_none ha
  exact ⟨h.of_eq rfl rfl, .of_rest (List.Sublist.refl _) (List.Sublist.refl _) rfl rfl, rfl⟩

/-- **The loop of `shm_alloc_evict`** ends in one answer of the slab, after some
evictions. -/
theorem allocLoop {now : Time} {n : ℕ} {r : Option Addr} (h : Wf held pending out loose own z)
    (hr : Shm.allocLoop rb now n z = (z', r)) :
    ∃ z₁, Wf held pending out loose own z₁ ∧ Evicts z z₁ ∧ slabAlloc z₁ = (z', r) := by
  induction n generalizing z with
  | zero =>
    refine ⟨z, h, Evicts.refl z, ?_⟩
    rwa [allocLoop_zero] at hr
  | succ n ih =>
    rw [allocLoop_succ] at hr
    split at hr
    next z₂ p he => exact ⟨z, h, Evicts.refl z, he.trans hr⟩
    next z₂ he =>
      obtain ⟨h2, hev, -⟩ := h.slabAlloc_none he
      obtain ⟨h3, h4, -, h6⟩ := h2.evictOne rb now
      split at hr
      next z₃ hone =>
        rw [hone] at h3 h4
        obtain ⟨z₁, h7, h8, h9⟩ := ih h3 hr
        exact ⟨z₁, h7, hev.trans (h4.trans h8), h9⟩
      next z₃ hone =>
        rw [hone] at h6
        obtain ⟨rfl, -⟩ := h6 rfl
        exact ⟨z, h, Evicts.refl z, he.trans hr⟩

/-- The bound of the loop is never what ends it. -/
theorem allocLoop_fuel {now : Time} {n : ℕ} (h : Wf held pending out loose own z)
    (hn : z.resident.length ≤ n) :
    Shm.allocLoop rb now (n + 1) z = Shm.allocLoop rb now n z := by
  induction n generalizing z with
  | zero =>
    have hnil : z.resident = [] := List.eq_nil_of_length_eq_zero (Nat.le_zero.1 hn)
    rw [allocLoop_succ, allocLoop_zero]
    split
    next he => exact he.symm
    next z₂ he =>
      obtain ⟨h2, -, hres⟩ := h.slabAlloc_none he
      obtain ⟨-, -, h5, h6⟩ := h2.evictOne rb now
      have hno : (Shm.evictOne rb z₂ now).2 = false := by
        by_contra hc
        have := h5 (by simpa using hc)
        rw [hres, hnil, List.length_nil] at this
        omega
      obtain ⟨heq, -⟩ := h6 hno
      have hpair : Shm.evictOne rb z₂ now = (z₂, false) := Prod.ext heq hno
      rw [hpair, he]
  | succ n ih =>
    rw [allocLoop_succ, allocLoop_succ rb now n]
    split
    next => rfl
    next z₂ he =>
      obtain ⟨h2, -, hres⟩ := h.slabAlloc_none he
      obtain ⟨h3, -, h5, -⟩ := h2.evictOne rb now
      split
      next z₃ hone =>
        rw [hone] at h3 h5
        refine ih h3 ?_
        have hless : z₃.resident.length + 1 = z₂.resident.length := h5 rfl
        rw [hres] at hless
        omega
      next => rfl

/-- **`shm_alloc_evict`** fails with the invariant kept, or hands out a block the
slab just gave, charged with its size. -/
theorem allocEvict {now : Time} {size : ℕ} {r : Option Addr}
    (h : Wf held pending out loose own z) (hr : Shm.allocEvict rb z now size = (z', r)) :
    ∃ z₁ z₂, Wf held pending out loose own z₁ ∧ Evicts z z₁ ∧ slabAlloc z₁ = (z₂, r) ∧
      z' = { z₂ with usedBytes := z₂.usedBytes + if r.isSome then size else 0 } := by
  unfold Shm.allocEvict at hr
  split at hr <;> rename_i he <;> obtain ⟨rfl, rfl⟩ := Prod.mk.inj hr <;>
    obtain ⟨z₁, h1, h2, h3⟩ := h.allocLoop rb he
  · exact ⟨z₁, _, h1, h2, h3, rfl⟩
  · exact ⟨z₁, _, h1, h2, h3, rfl⟩

theorem allocEvict_none {now : Time} {size : ℕ} (h : Wf held pending out loose own z)
    (hr : Shm.allocEvict rb z now size = (z', none)) :
    Wf held pending out loose own z' ∧ Evicts z z' := by
  obtain ⟨z₁, z₂, h1, h2, h3, rfl⟩ := h.allocEvict rb hr
  obtain ⟨h4, h5, -⟩ := h1.slabAlloc_none h3
  exact ⟨h4.of_eq rfl rfl,
    h2.trans (h5.trans (.of_rest (List.Sublist.refl _) (List.Sublist.refl _) rfl rfl))⟩

/-- A node block comes into the function's hands. -/
theorem allocNode {now : Time} {p : Addr} (h : Wf held pending out loose own z)
    (hr : Shm.allocEvict rb z now sizeofNode = (z', some p)) :
    Wf held pending out (p :: loose) own z' ∧ Evicts z z' := by
  obtain ⟨z₁, z₂, h1, h2, h3, rfl⟩ := h.allocEvict rb hr
  have hheap := h1.heap.allocNode h3
  obtain ⟨-, rfl⟩ := Heap.slabAlloc_some h3
  refine ⟨⟨h1.queues.of_links rfl, hheap.perm List.perm_middle.symm (List.Perm.refl _)⟩,
    h2.trans (.of_rest (List.Sublist.refl _) (List.Sublist.refl _) rfl rfl)⟩

theorem blobAlloc_none {now : Time} {data : List UInt8} (h : Wf held pending out loose own z)
    (hr : Shm.blobAlloc rb z now data = (z', none)) :
    Wf held pending out loose own z' ∧ Evicts z z' := by
  unfold Shm.blobAlloc at hr
  split at hr
  next he =>
    obtain ⟨rfl, -⟩ := Prod.mk.inj hr
    exact h.allocEvict_none rb he
  next => simp at hr

/-- **`blob_alloc`** and the copy: a new body comes into the function's hands. -/
theorem blobAlloc {now : Time} {data : List UInt8} {b : BlobId}
    (h : Wf held pending out loose own z) (hr : Shm.blobAlloc rb z now data = (z', some b)) :
    Wf held pending out loose (b :: own) z' ∧ Evicts z z' ∧ (z'.blob b).body = data := by
  unfold Shm.blobAlloc at hr
  split at hr
  next => simp at hr
  next z₀ base he =>
    obtain ⟨z₁, z₂, h1, h2, h3, rfl⟩ := h.allocEvict rb he
    have hheap := h1.heap.allocBlob data h3
    obtain ⟨-, rfl⟩ := Heap.slabAlloc_some h3
    simp only [Prod.mk.injEq, Option.some.injEq] at hr
    obtain ⟨rfl, rfl⟩ := hr
    refine ⟨⟨h1.queues.of_links rfl, (hheap.perm (List.Perm.refl _) List.perm_middle.symm).of_stock rfl⟩,
      h2.trans ?_, by simp [Zone.setBlob]⟩
    refine ⟨List.Sublist.refl _, List.Sublist.refl _, fun _ => Or.inl rfl, fun _ _ => rfl, rfl, rfl,
      rfl, Nat.le_succ _, fun c hc => ?_⟩
    have hne : c ≠ z₁.slab.serial := Nat.ne_of_lt hc
    simp [Zone.setBlob, hne]

end Wf

end Shm
end CacheTurbo
