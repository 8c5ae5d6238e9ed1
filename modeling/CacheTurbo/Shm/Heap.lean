/-
# Blocks, bodies and `used_bytes`

The half of the zone invariant that is about the slab.  `Heap held pending
nodes own z` says: the taken blocks are the node blocks `nodes` and the blocks
of the allocated bodies, each once; every body ever allocated is either still
allocated or was given back exactly once; the reference count of an allocated
body is one for the node that owns it (`own` lists the owned bodies) plus the
references `held` by requests; a body without references is one whose last
holder is about to give it back (`pending`); and `used_bytes` is the size of the
nodes plus the recorded size of the allocated bodies.

`held` and `pending` are the requests' side: zone operations run under the mutex
and only ever add to `held`, while a request's `blob_release` drops a reference
(`dropRef`) and gives the block back in a later step (`freeBlob`).
-/

import CacheTurbo.Shm.Claim
import Mathlib.Algebra.BigOperators.Group.List.Basic
import Mathlib.Algebra.GroupWithZero.Nat
import Mathlib.Data.List.Nodup

namespace CacheTurbo
namespace Shm

/-- Blocks, bodies and the byte counter agree. -/
structure Heap (held pending : List BlobId) (nodes : List Addr) (own : List BlobId)
    (z : Zone) : Prop where
  taken : z.slab.taken.Perm (nodes ++ z.slab.blobs.map fun b => (z.blob b).addr)
  nodup : z.slab.taken.Nodup
  serials : (z.slab.blobs ++ z.slab.freed).Perm (List.range z.slab.serial)
  own_nodup : own.Nodup
  own_live : ∀ b ∈ own, b ∈ z.slab.blobs
  held_live : ∀ b ∈ held, b ∈ z.slab.blobs
  pending_nodup : pending.Nodup
  pending_live : ∀ b ∈ pending, b ∈ z.slab.blobs
  refs : ∀ b ∈ z.slab.blobs, (z.blob b).refs = own.count b + held.count b
  pending_iff : ∀ b ∈ z.slab.blobs, b ∈ pending ↔ (z.blob b).refs = 0
  detached_iff : ∀ b ∈ z.slab.blobs, (z.blob b).detached = true ↔ b ∉ own
  used : z.usedBytes =
    sizeofNode * nodes.length + (z.slab.blobs.map fun b => (z.blob b).bytes).sum
  alerts : z.alerts = 0
  wild : z.wild = 0

namespace Heap

variable {held pending : List BlobId} {nodes : List Addr} {own : List BlobId}
  {z z' : Zone}

theorem blobs_nodup (h : Heap held pending nodes own z) : z.slab.blobs.Nodup :=
  (List.nodup_append.1 (h.serials.nodup_iff.2 List.nodup_range)).1

theorem nodes_nodup (h : Heap held pending nodes own z) : nodes.Nodup :=
  (List.nodup_append.1 (h.taken.nodup_iff.1 h.nodup)).1

/-- A body that is allocated was not given back. -/
theorem not_freed (h : Heap held pending nodes own z) {b : BlobId} (hb : b ∈ z.slab.blobs) :
    b ∉ z.slab.freed := fun hf =>
  (List.nodup_append.1 (h.serials.nodup_iff.2 List.nodup_range)).2.2 b hb b hf rfl

/-- A body that is allocated has a serial number below the next one. -/
theorem live_lt (h : Heap held pending nodes own z) {b : BlobId} (hb : b ∈ z.slab.blobs) :
    b < z.slab.serial :=
  List.mem_range.1 (h.serials.mem_iff.1 (List.mem_append_left _ hb))

/-- The next serial number is new. -/
theorem serial_not_live (h : Heap held pending nodes own z) : z.slab.serial ∉ z.slab.blobs :=
  fun hb => Nat.lt_irrefl _ (h.live_lt hb)

/-- An access to an allocated body is no use after free. -/
theorem access_eq {b : BlobId} (hb : b ∈ z.slab.blobs) : z.access b = z := by
  unfold Zone.access
  rw [if_pos hb]

/-- The lists are read up to order. -/
theorem perm (h : Heap held pending nodes own z) {nodes' : List Addr} {own' : List BlobId}
    (hn : nodes.Perm nodes') (ho : own.Perm own') : Heap held pending nodes' own' z where
  taken := h.taken.trans (hn.append_right _)
  nodup := h.nodup
  serials := h.serials
  own_nodup := ho.nodup_iff.1 h.own_nodup
  own_live := fun b hb => h.own_live b (ho.mem_iff.2 hb)
  held_live := h.held_live
  pending_nodup := h.pending_nodup
  pending_live := h.pending_live
  refs := fun b hb => by rw [h.refs b hb, ho.count_eq]
  pending_iff := h.pending_iff
  detached_iff := fun b hb => by rw [h.detached_iff b hb, ho.mem_iff]
  used := by rw [h.used, hn.length_eq]
  alerts := h.alerts
  wild := h.wild

/-- `Heap` reads the slab's lists, the bodies and the byte counter. -/
theorem congr (h : Heap held pending nodes own z) (ht : z'.slab.taken = z.slab.taken)
    (hb : z'.slab.blobs = z.slab.blobs) (hf : z'.slab.freed = z.slab.freed)
    (hs : z'.slab.serial = z.slab.serial) (hblob : z'.blob = z.blob)
    (hu : z'.usedBytes = z.usedBytes) (ha : z'.alerts = z.alerts) (hw : z'.wild = z.wild) :
    Heap held pending nodes own z' where
  taken := by rw [ht, hb, hblob]; exact h.taken
  nodup := by rw [ht]; exact h.nodup
  serials := by rw [hb, hf, hs]; exact h.serials
  own_nodup := h.own_nodup
  own_live := by rw [hb]; exact h.own_live
  held_live := by rw [hb]; exact h.held_live
  pending_nodup := h.pending_nodup
  pending_live := by rw [hb]; exact h.pending_live
  refs := by rw [hb, hblob]; exact h.refs
  pending_iff := by rw [hb, hblob]; exact h.pending_iff
  detached_iff := by rw [hb, hblob]; exact h.detached_iff
  used := by rw [hu, hb, hblob]; exact h.used
  alerts := by rw [ha]; exact h.alerts
  wild := by rw [hw]; exact h.wild

/-- What a successful answer of the slab leaves behind. -/
theorem slabAlloc_some {p : Addr} (ha : slabAlloc z = (z', some p)) :
    p ∉ z.slab.taken ∧ z' = { z with slab := { z.slab with
      asked := z.slab.asked + 1, taken := p :: z.slab.taken } } := by
  unfold slabAlloc at ha
  cases hans : z.slab.answers z.slab.asked with
  | none => simp [hans] at ha
  | some q =>
    simp only [hans] at ha
    split_ifs at ha with hq
    · simp at ha
    · simp only [Prod.mk.injEq, Option.some.injEq] at ha
      obtain ⟨rfl, rfl⟩ := ha
      exact ⟨hq, rfl⟩

/-- A failure changes nothing but the position in the stream of answers. -/
theorem slabAlloc_none (ha : slabAlloc z = (z', none)) :
    z' = { z with slab := { z.slab with asked := z.slab.asked + 1 } } := by
  unfold slabAlloc at ha
  cases hans : z.slab.answers z.slab.asked with
  | none => simpa [hans, eq_comm] using ha
  | some q =>
    simp only [hans] at ha
    split_ifs at ha
    · simpa [eq_comm] using ha
    · simp at ha

/-- A node block is allocated and charged. -/
theorem allocNode (h : Heap held pending nodes own z) {p : Addr}
    (ha : slabAlloc z = (z', some p)) :
    Heap held pending (p :: nodes) own { z' with usedBytes := z'.usedBytes + sizeofNode } := by
  obtain ⟨hp, rfl⟩ := slabAlloc_some ha
  exact {
    taken := h.taken.cons p
    nodup := List.nodup_cons.2 ⟨hp, h.nodup⟩
    serials := h.serials
    own_nodup := h.own_nodup
    own_live := h.own_live
    held_live := h.held_live
    pending_nodup := h.pending_nodup
    pending_live := h.pending_live
    refs := h.refs
    pending_iff := h.pending_iff
    detached_iff := h.detached_iff
    used := by
      have hu := h.used
      show z.usedBytes + sizeofNode = sizeofNode * (nodes.length + 1) +
        (z.slab.blobs.map fun b => (z.blob b).bytes).sum
      rw [hu, Nat.mul_succ]
      omega
    alerts := h.alerts
    wild := h.wild }

/-- A body is allocated and charged: it starts with its node's reference. -/
theorem allocBlob (h : Heap held pending nodes own z) {p : Addr} (data : List UInt8)
    (ha : slabAlloc z = (z', some p)) :
    Heap held pending nodes (z.slab.serial :: own)
      { z' with
        usedBytes := z'.usedBytes + (sizeofBlobref + data.length)
        blob := Function.update z'.blob z.slab.serial
          ⟨p, 1, false, sizeofBlobref + data.length, data⟩
        slab := { z'.slab with
          blobs := z.slab.serial :: z'.slab.blobs, serial := z.slab.serial + 1 } } := by
  obtain ⟨hp, rfl⟩ := slabAlloc_some ha
  have hnew := h.serial_not_live
  have hne : ∀ b ∈ z.slab.blobs, b ≠ z.slab.serial := fun b hb he => hnew (he ▸ hb)
  have hnotown : z.slab.serial ∉ own := fun ho => hnew (h.own_live _ ho)
  have hheld : held.count z.slab.serial = 0 :=
    List.count_eq_zero.2 fun hc => hnew (h.held_live _ hc)
  have hnotpending : z.slab.serial ∉ pending := fun hc => hnew (h.pending_live _ hc)
  set r : Blob := ⟨p, 1, false, sizeofBlobref + data.length, data⟩ with hr
  have hmap : ∀ {α : Type} (f : Blob → α),
      z.slab.blobs.map (fun b => f (Function.update z.blob z.slab.serial r b)) =
        z.slab.blobs.map fun b => f (z.blob b) := fun f =>
    List.map_congr_left fun b hb => by rw [Function.update_of_ne (hne b hb)]
  have hupd : Function.update z.blob z.slab.serial r z.slab.serial = r := Function.update_self ..
  refine ⟨?_, List.nodup_cons.2 ⟨hp, h.nodup⟩, ?_, List.nodup_cons.2 ⟨hnotown, h.own_nodup⟩,
    ?_, ?_, h.pending_nodup, ?_, ?_, ?_, ?_, ?_, h.alerts, h.wild⟩
  · show (p :: z.slab.taken).Perm (nodes ++ (z.slab.serial :: z.slab.blobs).map
      fun b => (Function.update z.blob z.slab.serial r b).addr)
    rw [List.map_cons, hmap Blob.addr, hupd]
    exact (h.taken.cons p).trans List.perm_middle.symm
  · show (z.slab.serial :: (z.slab.blobs ++ z.slab.freed)).Perm (List.range (z.slab.serial + 1))
    rw [List.range_succ]
    exact (h.serials.cons _).trans (List.perm_append_singleton _ _).symm
  · intro b hb
    rcases List.mem_cons.1 hb with rfl | hb
    · exact List.mem_cons_self ..
    · exact List.mem_cons_of_mem _ (h.own_live b hb)
  · exact fun b hb => List.mem_cons_of_mem _ (h.held_live b hb)
  · exact fun b hb => List.mem_cons_of_mem _ (h.pending_live b hb)
  · intro b hb
    show (Function.update z.blob z.slab.serial r b).refs = _
    rcases List.mem_cons.1 hb with rfl | hb
    · rw [hupd, List.count_cons_self, List.count_eq_zero.2 hnotown, hheld]
      rfl
    · rw [Function.update_of_ne (hne b hb), List.count_cons_of_ne (hne b hb).symm]
      exact h.refs b hb
  · intro b hb
    show _ ↔ (Function.update z.blob z.slab.serial r b).refs = 0
    rcases List.mem_cons.1 hb with rfl | hb
    · rw [hupd]
      exact iff_of_false hnotpending Int.one_ne_zero
    · rw [Function.update_of_ne (hne b hb)]
      exact h.pending_iff b hb
  · intro b hb
    show (Function.update z.blob z.slab.serial r b).detached = true ↔ _
    rcases List.mem_cons.1 hb with rfl | hb
    · rw [hupd]
      exact iff_of_false Bool.false_ne_true (not_not_intro (List.mem_cons_self ..))
    · rw [Function.update_of_ne (hne b hb), h.detached_iff b hb, List.mem_cons]
      simp [hne b hb]
  · show z.usedBytes + (sizeofBlobref + data.length) = sizeofNode * nodes.length +
      ((z.slab.serial :: z.slab.blobs).map
        fun b => (Function.update z.blob z.slab.serial r b).bytes).sum
    rw [List.map_cons, hmap Blob.bytes, hupd, List.sum_cons, h.used]
    show _ = _ + ((sizeofBlobref + data.length) + _)
    omega

/-- A node block goes back: `used_bytes` covers it. -/
theorem freeNode {a : Addr} (h : Heap held pending (a :: nodes) own z) :
    Heap held pending nodes own (freeLocked z a sizeofNode) := by
  have hused : z.usedBytes = sizeofNode + (sizeofNode * nodes.length +
      (z.slab.blobs.map fun b => (z.blob b).bytes).sum) := by
    rw [h.used, List.length_cons, Nat.mul_succ]
    omega
  have hge : z.usedBytes ≥ sizeofNode := by omega
  unfold freeLocked
  rw [if_pos hge]
  exact {
    taken := by
      have := h.taken.erase a
      rwa [List.cons_append, List.erase_cons_head] at this
    nodup := h.nodup.erase a
    serials := h.serials
    own_nodup := h.own_nodup
    own_live := h.own_live
    held_live := h.held_live
    pending_nodup := h.pending_nodup
    pending_live := h.pending_live
    refs := h.refs
    pending_iff := h.pending_iff
    detached_iff := h.detached_iff
    used := by
      show z.usedBytes - sizeofNode = sizeofNode * nodes.length +
        (z.slab.blobs.map fun b => (z.blob b).bytes).sum
      omega
    alerts := h.alerts
    wild := h.wild }

/-- **A body without references goes back**, and `used_bytes` covers it. -/
theorem freeBlob {b : BlobId} (h : Heap held pending nodes own z) (hb : b ∈ pending) :
    Heap held (pending.erase b) nodes own (freeBlob z b (z.blob b).bytes) := by
  have hlive := h.pending_live b hb
  have hrefs := (h.pending_iff b hlive).1 hb
  have hzero : own.count b = 0 ∧ held.count b = 0 := by
    have := h.refs b hlive
    omega
  have hnotown : b ∉ own := List.count_eq_zero.1 hzero.1
  have hnotheld : b ∉ held := List.count_eq_zero.1 hzero.2
  have hsplit : z.slab.blobs.Perm (b :: z.slab.blobs.erase b) := List.perm_cons_erase hlive
  have hused : z.usedBytes = (z.blob b).bytes + (sizeofNode * nodes.length +
      ((z.slab.blobs.erase b).map fun c => (z.blob c).bytes).sum) := by
    rw [h.used, (hsplit.map fun c => (z.blob c).bytes).sum_eq, List.map_cons, List.sum_cons]
    omega
  have hge : z.usedBytes ≥ (z.blob b).bytes := by omega
  have hmem : ∀ c, c ∈ z.slab.blobs.erase b ↔ c ≠ b ∧ c ∈ z.slab.blobs := fun c =>
    h.blobs_nodup.mem_erase_iff
  unfold Shm.freeBlob freeLocked
  simp only [if_pos hge]
  exact {
    taken := by
      have h1 := (h.taken.trans ((hsplit.map fun c => (z.blob c).addr).append_left nodes)).erase
        (z.blob b).addr
      rw [List.map_cons] at h1
      refine h1.trans ((List.perm_middle.erase _).trans ?_)
      rw [List.erase_cons_head]
    nodup := h.nodup.erase _
    serials := by
      refine List.Perm.trans ?_ h.serials
      exact List.perm_middle.trans (hsplit.symm.append_right _)
    own_nodup := h.own_nodup
    own_live := fun c hc => (hmem c).2 ⟨by rintro rfl; exact hnotown hc, h.own_live c hc⟩
    held_live := fun c hc => (hmem c).2 ⟨by rintro rfl; exact hnotheld hc, h.held_live c hc⟩
    pending_nodup := h.pending_nodup.erase b
    pending_live := fun c hc => by
      obtain ⟨hne, hc⟩ := h.pending_nodup.mem_erase_iff.1 hc
      exact (hmem c).2 ⟨hne, h.pending_live c hc⟩
    refs := fun c hc => h.refs c ((hmem c).1 hc).2
    pending_iff := fun c hc => by
      obtain ⟨hne, hc⟩ := (hmem c).1 hc
      rw [h.pending_nodup.mem_erase_iff, ← h.pending_iff c hc]
      exact ⟨fun hc' => hc'.2, fun hc' => ⟨hne, hc'⟩⟩
    detached_iff := fun c hc => h.detached_iff c ((hmem c).1 hc).2
    used := by
      show z.usedBytes - (z.blob b).bytes = sizeofNode * nodes.length +
        ((z.slab.blobs.erase b).map fun c => (z.blob c).bytes).sum
      omega
    alerts := h.alerts
    wild := h.wild }

/-- Dropping one reference of `b`: the last one leaves the body to be freed. -/
theorem dropRef {b : BlobId} (h : Heap held pending nodes own z) (hlive : b ∈ z.slab.blobs)
    (held' own' : List BlobId) (d : Bool) (hnd : own'.Nodup)
    (hown : ∀ c, c ≠ b → (c ∈ own' ↔ c ∈ own))
    (hheld : ∀ c, c ≠ b → held'.count c = held.count c)
    (hcount : own'.count b + held'.count b + 1 = own.count b + held.count b)
    (hd : d = true ↔ b ∉ own') :
    Heap held' (if (z.blob b).refs = 1 then b :: pending else pending) nodes own'
      (z.setBlob b fun r => { r with detached := d, refs := r.refs - 1 }) := by
  have hrefs := h.refs b hlive
  have hnp : b ∉ pending := by
    rw [h.pending_iff b hlive]
    omega
  set r' : Blob := { z.blob b with detached := d, refs := (z.blob b).refs - 1 } with hr'
  have hblob : (z.setBlob b fun r => { r with detached := d, refs := r.refs - 1 }).blob =
      Function.update z.blob b r' := rfl
  have hmap : ∀ {α : Type} (f : Blob → α), f r' = f (z.blob b) →
      z.slab.blobs.map (fun c => f (Function.update z.blob b r' c)) =
        z.slab.blobs.map fun c => f (z.blob c) := by
    intro α f hf
    refine List.map_congr_left fun c _ => ?_
    by_cases hc : c = b
    · subst hc; rw [Function.update_self, hf]
    · rw [Function.update_of_ne hc]
  have hself : Function.update z.blob b r' b = r' := Function.update_self ..
  have hpend : ∀ c, c ≠ b →
      (c ∈ (if (z.blob b).refs = 1 then b :: pending else pending) ↔ c ∈ pending) := by
    intro c hc
    split_ifs
    · simp [hc]
    · rfl
  have hcnt : ∀ c, c ≠ b → own'.count c = own.count c := by
    intro c hc
    by_cases hm : c ∈ own
    · rw [List.count_eq_one_of_mem hnd ((hown c hc).2 hm),
        List.count_eq_one_of_mem h.own_nodup hm]
    · rw [List.count_eq_zero.2 hm, List.count_eq_zero.2 fun hm' => hm ((hown c hc).1 hm')]
  exact {
    taken := by
      rw [hblob]
      show z.slab.taken.Perm (nodes ++ z.slab.blobs.map _)
      rw [hmap Blob.addr rfl]
      exact h.taken
    nodup := h.nodup
    serials := h.serials
    own_nodup := hnd
    own_live := fun c hc => by
      by_cases hcb : c = b
      · subst hcb; exact hlive
      · exact h.own_live c ((hown c hcb).1 hc)
    held_live := fun c hc => by
      by_cases hcb : c = b
      · subst hcb; exact hlive
      · exact h.held_live c (List.count_pos_iff.1 (hheld c hcb ▸ List.count_pos_iff.2 hc))
    pending_nodup := by
      split_ifs
      · exact List.nodup_cons.2 ⟨hnp, h.pending_nodup⟩
      · exact h.pending_nodup
    pending_live := fun c hc => by
      by_cases hcb : c = b
      · subst hcb; exact hlive
      · exact h.pending_live c ((hpend c hcb).1 hc)
    refs := fun c hc => by
      rw [hblob]
      by_cases hcb : c = b
      · subst hcb
        rw [hself]
        show (z.blob c).refs - 1 = _
        omega
      · rw [Function.update_of_ne hcb, hcnt c hcb, hheld c hcb]
        exact h.refs c hc
    pending_iff := fun c hc => by
      rw [hblob]
      by_cases hcb : c = b
      · subst hcb
        rw [hself]
        show _ ↔ (z.blob c).refs - 1 = 0
        split_ifs with h1
        · simp [h1]
        · exact iff_of_false hnp (by omega)
      · rw [Function.update_of_ne hcb, hpend c hcb]
        exact h.pending_iff c hc
    detached_iff := fun c hc => by
      rw [hblob]
      by_cases hcb : c = b
      · subst hcb
        rw [hself]
        exact hd
      · rw [Function.update_of_ne hcb, h.detached_iff c hc, hown c hcb]
    used := by
      rw [hblob]
      show z.usedBytes = sizeofNode * nodes.length + (z.slab.blobs.map _).sum
      rw [hmap Blob.bytes rfl]
      exact h.used
    alerts := h.alerts
    wild := h.wild }

/-- **`blob_node_release`**: the owner lets go, and the body goes back exactly
when nobody else holds it. -/
theorem release {b : BlobId} (h : Heap held pending nodes (b :: own) z) :
    Heap held pending nodes own (blobNodeRelease z b) := by
  have hlive := h.own_live b (List.mem_cons_self ..)
  obtain ⟨hb, hnd⟩ := List.nodup_cons.1 h.own_nodup
  have hdrop := h.dropRef hlive held own true hnd
    (fun c hc => by simp [hc]) (fun _ _ => rfl)
    (by rw [List.count_cons_self]; omega) (by simp [hb])
  unfold blobNodeRelease
  rw [access_eq hlive]
  dsimp only
  split_ifs with hold
  · rw [if_pos hold] at hdrop
    have hfree := hdrop.freeBlob (List.mem_cons_self ..)
    rw [List.erase_cons_head] at hfree
    have hbytes : ((z.setBlob b fun r => { r with detached := true, refs := r.refs - 1 }).blob
        b).bytes = (z.blob b).bytes := by simp [Zone.setBlob]
    rwa [hbytes] at hfree
  · rwa [if_neg hold] at hdrop

/-- **`blob_acquire`** on an owned body: the request holds one reference more. -/
theorem acquire {b : BlobId} (h : Heap held pending nodes own z) (hb : b ∈ own) :
    Heap (b :: held) pending nodes own (blobAcquire z b) := by
  have hlive := h.own_live b hb
  have hrefs := h.refs b hlive
  have hcount := List.count_eq_one_of_mem h.own_nodup hb
  unfold blobAcquire
  rw [access_eq hlive]
  set r' : Blob := { z.blob b with refs := (z.blob b).refs + 1 } with hr'
  have hblob : (z.setBlob b fun r => { r with refs := r.refs + 1 }).blob =
      Function.update z.blob b r' := rfl
  have hmap : ∀ {α : Type} (f : Blob → α), f r' = f (z.blob b) →
      z.slab.blobs.map (fun c => f (Function.update z.blob b r' c)) =
        z.slab.blobs.map fun c => f (z.blob c) := by
    intro α f hf
    refine List.map_congr_left fun c _ => ?_
    by_cases hc : c = b
    · subst hc; rw [Function.update_self, hf]
    · rw [Function.update_of_ne hc]
  exact {
    taken := by
      rw [hblob]
      show z.slab.taken.Perm (nodes ++ z.slab.blobs.map _)
      rw [hmap Blob.addr rfl]
      exact h.taken
    nodup := h.nodup
    serials := h.serials
    own_nodup := h.own_nodup
    own_live := h.own_live
    held_live := fun c hc => by
      rcases List.mem_cons.1 hc with rfl | hc
      · exact hlive
      · exact h.held_live c hc
    pending_nodup := h.pending_nodup
    pending_live := h.pending_live
    refs := fun c hc => by
      rw [hblob]
      by_cases hcb : c = b
      · subst hcb
        rw [Function.update_self, List.count_cons_self]
        show (z.blob c).refs + 1 = _
        push_cast
        omega
      · rw [Function.update_of_ne hcb, List.count_cons_of_ne (Ne.symm hcb)]
        exact h.refs c hc
    pending_iff := fun c hc => by
      rw [hblob]
      by_cases hcb : c = b
      · subst hcb
        rw [Function.update_self, h.pending_iff c hc]
        show _ ↔ (z.blob c).refs + 1 = 0
        omega
      · rw [Function.update_of_ne hcb]
        exact h.pending_iff c hc
    detached_iff := fun c hc => by
      rw [hblob]
      by_cases hcb : c = b
      · subst hcb
        rw [Function.update_self]
        exact h.detached_iff c hc
      · rw [Function.update_of_ne hcb]
        exact h.detached_iff c hc
    used := by
      rw [hblob]
      show z.usedBytes = sizeofNode * nodes.length + (z.slab.blobs.map _).sum
      rw [hmap Blob.bytes rfl]
      exact h.used
    alerts := h.alerts
    wild := h.wild }

end Heap

end Shm
end CacheTurbo
