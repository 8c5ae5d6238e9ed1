/-
# Bodies on loan

A zero-copy serve takes a reference on a body under the mutex and gives it back
later without the mutex: `ngx_http_cache_turbo_blob_release` is a `fetch_add`,
and, when that dropped the last reference, a free under the mutex.  The two are
separate steps here, and any zone operation or other serve may run in between.

A state `Loans` is a zone together with the references that requests hold and
the frees that are still to run, each with the size its request read before its
`fetch_add`.  The main result is about every run of operations, reads, releases
and frees from a fresh zone.
-/

import CacheTurbo.Shm.Ops

namespace CacheTurbo
namespace Shm

/-- A zone and what requests have in hand: references, and frees still to run. -/
structure Loans where
  zone : Zone
  held : List BlobId
  frees : List (BlobId × ℕ)

/-- The lock-free part of `ngx_http_cache_turbo_blob_release`: the size is read,
then one reference is dropped; the last one leaves a free to run. -/
def blobReleaseDrop (z : Zone) (b : BlobId) : Zone × Option (BlobId × ℕ) :=
  let z := z.access b
  let bytes := (z.blob b).bytes
  let old := (z.blob b).refs
  let z := z.setBlob b fun r => { r with refs := r.refs - 1 }
  (z, if old ≠ 1 then none else some (b, bytes))

/-- What can happen next. -/
inductive Event
  | op (now : Time) (op : ZoneOp)
  | read (b : BlobId)
  | release (b : BlobId)
  | free (job : BlobId × ℕ)

variable (rb : Rbtree)

/-- One step.  A read or a release of a reference nobody holds, and a free nobody
has to run, are no steps of the system and change nothing. -/
def Loans.step (s : Loans) : Event → Loans
  | .op now op =>
      let r := exec rb s.zone now op
      { s with zone := r.1, held := r.2.pins ++ s.held }
  | .read b => if b ∈ s.held then { s with zone := s.zone.access b } else s
  | .release b =>
      if b ∈ s.held then
        let r := blobReleaseDrop s.zone b
        { zone := r.1, held := s.held.erase b, frees := r.2.toList ++ s.frees }
      else s
  | .free job =>
      if job ∈ s.frees then
        { s with zone := freeBlob s.zone job.1 job.2, frees := s.frees.erase job }
      else s

/-- The invariant of a system of loans. -/
structure Loans.Ok (s : Loans) : Prop where
  wf : Wf s.held (s.frees.map Prod.fst) [] [] [] s.zone
  sizes : ∀ job ∈ s.frees, job.2 = (s.zone.blob job.1).bytes

/-- Releasing a reference: the last one leaves the body to be freed. -/
theorem Wf.blobReleaseDrop {held pending : List BlobId} {z : Zone}
    (h : Wf held pending [] [] [] z) {b : BlobId} (hb : b ∈ held) :
    let r := Shm.blobReleaseDrop z b
    Wf (held.erase b) ((r.2.map Prod.fst).toList ++ pending) [] [] [] r.1 ∧
      (∀ c, (r.1.blob c).content = (z.blob c).content) ∧
      ∀ job ∈ r.2, job = (b, (z.blob b).bytes) := by
  have hlive := h.heap.held_live b hb
  have hpos := List.count_pos_iff.2 hb
  have hdrop := h.heap.dropRef hlive (held.erase b) (ownRefs z ++ []) (z.blob b).detached
    h.heap.own_nodup (fun _ _ => Iff.rfl) (fun c hc => List.count_erase_of_ne hc)
    (by rw [List.count_erase_self]; omega) (h.heap.detached_iff b hlive)
  set f : Blob → Blob := fun r => { r with refs := r.refs - 1 } with hf
  have hset : (z.setBlob b fun r =>
      { r with detached := (z.blob b).detached, refs := r.refs - 1 }) = z.setBlob b f := rfl
  have hcontent : ∀ c, ((z.setBlob b f).blob c).content = (z.blob c).content := fun c =>
    content_of_rest (rest_setBlob z b (f := f) rfl) c
  have heq : Shm.blobReleaseDrop z b =
      (z.setBlob b f, if (z.blob b).refs ≠ 1 then none else some (b, (z.blob b).bytes)) := by
    unfold Shm.blobReleaseDrop
    rw [Heap.access_eq hlive]
  rw [heq]
  rw [hset] at hdrop
  refine ⟨⟨h.queues.of_links rfl, ?_⟩, hcontent, ?_⟩
  · by_cases hlast : (z.blob b).refs = 1
    · rw [if_pos hlast] at hdrop
      rw [if_neg (not_not.2 hlast)]
      exact hdrop
    · rw [if_neg hlast] at hdrop
      rw [if_pos hlast]
      exact hdrop
  · intro job hjob
    by_cases hlast : (z.blob b).refs = 1
    · rw [if_neg (not_not.2 hlast)] at hjob
      exact (Option.some.inj hjob).symm
    · rw [if_pos hlast] at hjob
      cases hjob

/-- Erasing commutes with a map that is injective on the list. -/
theorem map_erase_of_nodup {α β : Type*} [BEq α] [LawfulBEq α] [BEq β] [LawfulBEq β] (f : α → β)
    {l : List α} (hnd : (l.map f).Nodup) {a : α} (ha : a ∈ l) :
    (l.erase a).map f = (l.map f).erase (f a) := by
  induction l with
  | nil => cases ha
  | cons x l ih =>
    rw [List.map_cons, List.nodup_cons] at hnd
    by_cases hx : x = a
    · subst hx
      rw [List.map_cons, List.erase_cons_head, List.erase_cons_head]
    · have hal : a ∈ l := (List.mem_cons.1 ha).resolve_left fun he => hx he.symm
      have hfx : f x ≠ f a := fun he => hnd.1 (he ▸ List.mem_map_of_mem hal)
      rw [List.map_cons, List.erase_cons_tail (by simpa using hx),
        List.erase_cons_tail (by simpa using hfx), List.map_cons, ih hnd.2 hal]

namespace Loans

/-- **Every step keeps the invariant.** -/
theorem Ok.step {s : Loans} (h : s.Ok) (e : Event) : (s.step rb e).Ok := by
  cases e with
  | op now op =>
    obtain ⟨h1, hfr⟩ := h.wf.exec rb now op
    refine ⟨h1, fun job hjob => ?_⟩
    have hlive := h.wf.heap.pending_live job.1 (List.mem_map_of_mem hjob)
    have hc := hfr.content job.1 (h.wf.heap.live_lt hlive)
    rw [h.sizes job hjob]
    exact (congrArg Prod.fst hc).symm
  | read b =>
    unfold Loans.step
    dsimp only
    split_ifs with hb
    · rw [Heap.access_eq (h.wf.heap.held_live b hb)]
      exact h
    · exact h
  | release b =>
    unfold Loans.step
    dsimp only
    split_ifs with hb
    · obtain ⟨h1, hcontent, hjob⟩ := h.wf.blobReleaseDrop hb
      refine ⟨?_, fun job hj => ?_⟩
      · show Wf _ (((Shm.blobReleaseDrop s.zone b).2.toList ++ s.frees).map Prod.fst) [] [] [] _
        rw [List.map_append]
        cases hr : (Shm.blobReleaseDrop s.zone b).2 <;> rw [hr] at h1 <;> exact h1
      · have hbytes : ∀ c, ((Shm.blobReleaseDrop s.zone b).1.blob c).bytes = (s.zone.blob c).bytes :=
          fun c => congrArg Prod.fst (hcontent c)
        show job.2 = ((Shm.blobReleaseDrop s.zone b).1.blob job.1).bytes
        rw [hbytes]
        rcases List.mem_append.1 hj with hj | hj
        · rw [hjob job (Option.mem_toList.1 hj)]
        · exact h.sizes job hj
    · exact h
  | free job =>
    unfold Loans.step
    dsimp only
    split_ifs with hjob
    · have hpend : job.1 ∈ s.frees.map Prod.fst := List.mem_map_of_mem hjob
      have hnd : (s.frees.map Prod.fst).Nodup := h.wf.heap.pending_nodup
      have hmap := map_erase_of_nodup Prod.fst hnd hjob
      have hfree := h.wf.heap.freeBlob hpend
      rw [← h.sizes job hjob] at hfree
      have hlinks := links_freeBlob s.zone job.1 job.2
      have hrest := rest_freeBlob s.zone job.1 job.2
      refine ⟨⟨h.wf.queues.of_links hlinks, ?_⟩, fun j hj => ?_⟩
      · rw [← hmap] at hfree
        rw [resident_of_links hlinks, ownRefs_of_links hlinks]
        exact hfree
      · rw [h.sizes j (List.mem_of_mem_erase hj)]
        exact (congrArg Prod.fst (content_of_rest hrest j.1)).symm
    · exact h

/-- What holds of the bodies and of `used_bytes` between any two steps.  A body is
named by the serial number of its allocation, so that `freed` lists every body
that was ever given back. -/
structure Sound (s : Loans) : Prop where
  freed_once : s.zone.slab.freed.Nodup
  every_body : ∀ b, b < s.zone.slab.serial ↔ b ∈ s.zone.slab.blobs ∨ b ∈ s.zone.slab.freed
  freed_gone : ∀ b ∈ s.zone.slab.freed, b ∉ s.zone.slab.blobs
  freed_unowned : ∀ b ∈ s.zone.slab.freed, ∀ a ∈ s.zone.resident, (s.zone.mem a).data ≠ some b
  freed_unheld : ∀ b ∈ s.zone.slab.freed, b ∉ s.held
  free_pending : ∀ b ∈ s.zone.slab.blobs, b ∈ s.frees.map Prod.fst ↔
    (∀ a ∈ s.zone.resident, (s.zone.mem a).data ≠ some b) ∧ b ∉ s.held
  frees_once : (s.frees.map Prod.fst).Nodup
  no_use_after_free : s.zone.wild = 0
  used : s.zone.usedBytes = sizeofNode * s.zone.resident.length +
    (s.zone.slab.blobs.map fun b => (s.zone.blob b).bytes).sum
  no_underflow : s.zone.alerts = 0

theorem Ok.sound {s : Loans} (h : s.Ok) : s.Sound := by
  have hheap := h.wf.heap
  have hserials := hheap.serials
  have hnodup := List.nodup_append.1 (hserials.nodup_iff.2 List.nodup_range)
  have hgone : ∀ b ∈ s.zone.slab.freed, b ∉ s.zone.slab.blobs := fun b hf hb =>
    hheap.not_freed hb hf
  have howned : ∀ b, (∀ a ∈ s.zone.resident, (s.zone.mem a).data ≠ some b) ↔
      b ∉ ownRefs s.zone ++ [] := by
    intro b
    rw [List.append_nil]
    unfold ownRefs
    rw [List.mem_filterMap]
    exact ⟨fun hn ⟨a, ha, hb⟩ => hn a ha hb, fun hn a ha hb => hn ⟨a, ha, hb⟩⟩
  refine ⟨hnodup.2.1, fun b => ?_, hgone, fun b hb => ?_, fun b hb => ?_, fun b hb => ?_,
    hheap.pending_nodup, hheap.wild, ?_, hheap.alerts⟩
  · rw [← List.mem_append, hserials.mem_iff, List.mem_range]
  · rw [howned]
    exact fun ho => hgone b hb (hheap.own_live b ho)
  · exact fun hh => hgone b hb (hheap.held_live b hh)
  · -- no reference is left exactly when neither a node nor a request has one
    rw [hheap.pending_iff b hb, hheap.refs b hb, howned, ← List.count_eq_zero, ← List.count_eq_zero]
    omega
  · have hused := hheap.used
    rw [List.append_nil, List.append_nil] at hused
    exact hused

/-- A zone just initialised, with nothing on loan. -/
def fresh (z : Zone) : Loans := ⟨z, [], []⟩

/-- **Lifetime of a body and accounting of the zone.**  After every run of zone
operations, serves' reads, lock-free releases and the frees they leave behind,
in any order: a body was given back at most once and only when neither a node
nor a request referred to it any more; a body nobody refers to has its one free
still to run; nothing was read or acquired after it was given back; and
`used_bytes` is the size of the nodes plus the recorded sizes of the bodies not
yet given back, so that it never underflows. -/
theorem lifetime (mem : Addr → Node) (blob : BlobId → Blob) (answers : ℕ → Option Addr)
    (sketch : Sketch) (admission : Bool) (breakerState : ℕ) (run : List Event) :
    (Run.after (Loans.step rb)
      (fresh (freshZone mem blob answers sketch admission breakerState)) run).Sound := by
  have hfresh : (fresh (freshZone mem blob answers sketch admission breakerState)).Ok :=
    ⟨Wf.freshZone mem blob answers sketch admission breakerState, nofun⟩
  have hrun := Run.after_invariant (P := Ok) (fun _ e h => Ok.step rb h e) hfresh run
  exact hrun.sound

end Loans

end Shm
end CacheTurbo
