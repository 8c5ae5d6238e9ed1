/-
# A store that fails

A store answers `NGX_ERROR` when an allocation fails after all evictions, and
`NGX_DECLINED` when admission or a `shm_store_if` predicate refuses it.  By then
the refresh path has taken its node off the queue, and the create path may hold a
node block.  `Failed k z z'` is what is left: the node of `k` is there as it was, on
its own queue, or there is still none; and every other node is there as it was, or
is gone and counts as an eviction.  A refusal evicts nothing (`Refused`).

The node of a refresh is off its queue while the loop runs, and evictions leave
such a node alone (`Evicts.off`): it cannot be its own victim.
-/

import CacheTurbo.Shm.EvictOrder
import CacheTurbo.Shm.Markers

namespace CacheTurbo
namespace Shm

variable {held pending : List BlobId} {out loose : List Addr} {own : List BlobId} {z z' : Zone}

/-- What a store that failed leaves. -/
structure Failed (keyHash : KeyHash) (z z' : Zone) : Prop where
  node : ∀ a, lookup z keyHash = some a → lookup z' keyHash = some a ∧ z'.mem a = z.mem a ∧
    (a ∈ z.lru → a ∈ z'.lru) ∧ (a ∈ z.lruProtected → a ∈ z'.lruProtected)
  absent : lookup z keyHash = none → lookup z' keyHash = none
  lru : ∀ a ∈ z'.lru, a ∈ z.lru
  lruProtected : ∀ a ∈ z'.lruProtected, a ∈ z.lruProtected
  mem : ∀ a, z'.mem a = z.mem a ∨ z'.mem a = { z.mem a with sieSpared := true }
  content : ∀ b < z.slab.serial, (z'.blob b).content = (z.blob b).content
  evicted : z'.evictions + z'.resident.length = z.evictions + z.resident.length

/-- What a store that was refused leaves: everything, and at most one more refusal
in the statistics. -/
def Refused (z z' : Zone) : Prop :=
  z' = z ∨ z' = { z with admissionRefused := z.admissionRefused + 1 }

/-- What the answer of a store says about the zone when it is no success. -/
def NothingLost (keyHash : KeyHash) (z z' : Zone) (rc : Rc) : Prop :=
  (rc = .error → Failed keyHash z z') ∧ (rc = .declined → Refused z z') ∧ rc ≠ .again

/-- Nodes that are only lost to evictions, and a digest that has no node. -/
theorem Failed.of_evicts (h : Wf held pending [] [] [] z) (h' : Wf held pending [] [] [] z')
    {keyHash : KeyHash} (hnone : lookup z keyHash = none) (hev : Evicts z z')
    (hcount : z'.evictions + z'.resident.length = z.evictions + z.resident.length) :
    Failed keyHash z z' where
  node a ha := by rw [hnone] at ha; cases ha
  absent _ := by
    cases hl : lookup z' keyHash with
    | none => rfl
    | some a =>
      obtain ⟨ha, hk⟩ := h'.queues.lookup_resident hl
      rw [hev.field Node.key (fun _ => rfl)] at hk
      exact absurd hk (h.queues.lookup_none hnone (Or.inl (hev.resident.subset ha)))
  lru a ha := hev.lru.subset ha
  lruProtected a ha := hev.lruProtected.subset ha
  mem := hev.spared
  content := hev.content
  evicted := hcount

variable (rb : Rbtree)

/-- A body that was not allocated. -/
theorem Wf.blobAlloc_gone (h : Wf held pending out loose own z) {now : Time} {data : List UInt8}
    {z' : Zone} {b : Option BlobId} (hr : Shm.blobAlloc rb z now data = (z', b)) :
    z'.evictions + z'.resident.length = z.evictions + z.resident.length := by
  have hgone := (h.allocEnds rb now (sizeofBlobref + data.length)).gone
  unfold Shm.blobAlloc at hr
  cases ha : Shm.allocEvict rb z now (sizeofBlobref + data.length) with
  | mk z₁ p =>
    rw [ha] at hr hgone
    cases p with
    | none =>
      obtain ⟨rfl, -⟩ := Prod.mk.inj hr
      exact hgone
    | some base =>
      obtain ⟨rfl, -⟩ := Prod.mk.inj hr
      exact hgone

theorem mem_lru_link (z : Zone) (a b : Addr) :
    b ∈ (lruLinkHead z a).lru ↔ b ∈ z.lru ∨ b = a ∧ (z.mem a).seg ≠ .segProtected := by
  unfold lruLinkHead
  split_ifs with hseg
  · simp [hseg]
  · simp [hseg, or_comm]

theorem mem_lruProtected_link (z : Zone) (a b : Addr) :
    b ∈ (lruLinkHead z a).lruProtected ↔
      b ∈ z.lruProtected ∨ b = a ∧ (z.mem a).seg = .segProtected := by
  unfold lruLinkHead
  split_ifs with hseg
  · simp [hseg, or_comm]
  · simp [hseg]

theorem evictions_link (z : Zone) (a : Addr) : (lruLinkHead z a).evictions = z.evictions := by
  unfold lruLinkHead
  split_ifs <;> rfl

/-- A queued node is on the queue of its segment. -/
theorem Queues.mem_segment (h : Queues out z) {a : Addr} (ha : a ∈ z.resident) :
    (a ∈ z.lru ↔ (z.mem a).seg ≠ .segProtected) ∧
      (a ∈ z.lruProtected ↔ (z.mem a).seg = .segProtected) := by
  rcases List.mem_append.1 ha with hl | hp
  · have hseg := h.lru_seg a hl
    exact ⟨by simp [hl, hseg], by simp [h.not_mem_both hl, hseg]⟩
  · have hseg := h.protected_seg a hp
    have hnot : a ∉ z.lru := fun hl => h.not_mem_both hl hp
    exact ⟨by simp [hnot, hseg], by simp [hp, hseg]⟩

/-- **The refresh path**: the node comes back to its own queue. -/
theorem Wf.storeRefresh_failed (h : Wf held pending [] [] [] z) {keyHash : KeyHash} {a : Addr}
    (hl : lookup z keyHash = some a) (now : Time) (data : List UInt8) (freshTtl staleTtl : Time) :
    let r := Shm.storeRefresh rb z now data freshTtl staleTtl a
    NothingLost keyHash z r.1 r.2.1 := by
  obtain ⟨ha, hkey⟩ := h.queues.lookup_resident hl
  obtain ⟨hlru, hprot⟩ := h.queues.mem_segment ha
  obtain ⟨hwf, -⟩ := h.storeRefresh rb ha now data freshTtl staleTtl
  have h₁ := h.unlink ha
  have hoff : a ∉ (lruUnlink z a).resident := fun hc =>
    h₁.queues.not_mem_out hc (List.mem_cons_self ..)
  unfold Shm.storeRefresh at hwf ⊢
  dsimp only at hwf ⊢
  cases hb : Shm.blobAlloc rb (lruUnlink z a) now data with
  | mk z₁ body =>
    rw [hb] at hwf
    cases body with
    | some body => exact ⟨by simp, by simp, by simp⟩
    | none =>
      refine ⟨fun _ => ?_, by simp, by simp⟩
      obtain ⟨-, hev⟩ := h₁.blobAlloc_none rb hb
      have hgone := h₁.blobAlloc_gone rb hb
      have hmem : z₁.mem a = z.mem a := hev.off a hoff
      have hres := Kept.resident_link z₁ a
      dsimp only at hwf ⊢
      refine ⟨fun b hb => ?_, fun hnone => ?_, fun b hb => ?_, fun b hb => ?_, fun b => ?_,
        fun b hb => ?_, ?_⟩
      · obtain rfl : b = a := Option.some.inj (hb.symm.trans hl)
        refine ⟨?_, ?_, fun hq => ?_, fun hq => ?_⟩
        · rw [hwf.queues.lookup_iff, Kept.mem_link, hmem]
          exact ⟨Or.inl (hres.mem_iff.2 (List.mem_cons_self ..)), hkey⟩
        · rw [Kept.mem_link, hmem]
        · rw [mem_lru_link, hmem]
          exact Or.inr ⟨rfl, hlru.1 hq⟩
        · rw [mem_lruProtected_link, hmem]
          exact Or.inr ⟨rfl, hprot.1 hq⟩
      · rw [hl] at hnone
        cases hnone
      · rw [mem_lru_link, hmem] at hb
        rcases hb with hb | ⟨rfl, hseg⟩
        · exact List.mem_of_mem_erase (hev.lru.subset hb)
        · exact hlru.2 hseg
      · rw [mem_lruProtected_link, hmem] at hb
        rcases hb with hb | ⟨rfl, hseg⟩
        · exact List.mem_of_mem_erase (hev.lruProtected.subset hb)
        · exact hprot.2 hseg
      · rw [Kept.mem_link]
        exact hev.spared b
      · rw [content_of_rest (Kept.rest_link z₁ a)]
        exact hev.content b hb
      · have hlen := List.length_erase_of_mem ha
        have hpos := List.length_pos_of_mem ha
        have hback : (lruUnlink z a).evictions = z.evictions := rfl
        rw [h.queues.resident_unlink, hlen, hback] at hgone
        rw [evictions_link, hres.length_eq, List.length_cons]
        omega

/-- **The create path**: the two blocks go back. -/
theorem Wf.storeCreate_failed (h : Wf held pending [] [] [] z) {keyHash : KeyHash}
    (hnone : lookup z keyHash = none) (hash : UInt32) (now : Time) (data : List UInt8)
    (freshTtl staleTtl : Time) :
    let r := Shm.storeCreate rb z keyHash hash now data freshTtl staleTtl
    NothingLost keyHash z r.1 r.2.1 := by
  obtain ⟨hwf, -⟩ := h.storeCreate rb hnone hash now data freshTtl staleTtl
  obtain ⟨h₀, -⟩ := h.shmAdmit hash
  have hadmitted := shmAdmit_eq z hash
  unfold Shm.storeCreate at hwf ⊢
  cases hadm : Shm.shmAdmit z hash with
  | mk z₀ admitted =>
    rw [hadm] at hwf h₀ hadmitted
    dsimp only at h₀ hadmitted
    have hfirst : Evicts z z₀ ∧
        z₀.evictions + z₀.resident.length = z.evictions + z.resident.length := by
      rcases hadmitted with rfl | rfl
      · exact ⟨Evicts.refl _, rfl⟩
      · exact ⟨.of_rest (List.Sublist.refl _) (List.Sublist.refl _) rfl rfl, rfl⟩
    obtain ⟨hev₀, hcount₀⟩ := hfirst
    cases admitted with
    | false => exact ⟨by simp, fun _ => hadmitted, by simp⟩
    | true =>
      have hgone := (h₀.allocEnds rb now sizeofNode).gone
      dsimp only at hwf ⊢
      cases hnode : Shm.allocEvict rb z₀ now sizeofNode with
      | mk z₁ p =>
        rw [hnode] at hwf hgone
        dsimp only at hgone
        cases p with
        | none =>
          obtain ⟨-, hev⟩ := h₀.allocEvict_none rb hnode
          exact ⟨fun _ => Failed.of_evicts h hwf hnone (hev₀.trans hev) (hgone.trans hcount₀),
            by simp, by simp⟩
        | some ctn =>
          obtain ⟨h₁, hev⟩ := h₀.allocNode rb hnode
          dsimp only at hwf ⊢
          cases hblob : Shm.blobAlloc rb z₁ now data with
          | mk z₂ body =>
            rw [hblob] at hwf
            cases body with
            | some body => exact ⟨by simp, by simp, by simp⟩
            | none =>
              obtain ⟨-, hev'⟩ := h₁.blobAlloc_none rb hblob
              have hgone' := h₁.blobAlloc_gone rb hblob
              have hlinks := links_freeLocked z₂ ctn sizeofNode
              have hfree : Evicts z₂ (freeLocked z₂ ctn sizeofNode) := by
                have hlru : (freeLocked z₂ ctn sizeofNode).lru = z₂.lru :=
                  congrArg (fun l => l.2.1) hlinks
                have hprot : (freeLocked z₂ ctn sizeofNode).lruProtected = z₂.lruProtected :=
                  congrArg (fun l => l.2.2.1) hlinks
                refine .of_rest ?_ ?_ (congrArg (fun l => l.2.2.2.2.2) hlinks)
                  (rest_freeLocked z₂ ctn sizeofNode)
                · rw [hlru]
                · rw [hprot]
              refine ⟨fun _ => Failed.of_evicts h hwf hnone
                (((hev₀.trans hev).trans hev').trans hfree) ?_, by simp, by simp⟩
              dsimp only
              rw [evictions_freeLocked, resident_of_links hlinks]
              exact (hgone'.trans hgone).trans hcount₀

/-- **`shm_store_locked`.** -/
theorem Wf.storeLocked_failed (h : Wf held pending [] [] [] z) (keyHash : KeyHash) (hash : UInt32)
    (now : Time) (data : List UInt8) (freshTtl staleTtl : Time) {ctn : Option Addr}
    (hctn : ctn = none ∨ ctn = lookup z keyHash) :
    let r := Shm.storeLocked rb z keyHash hash now data freshTtl staleTtl ctn
    NothingLost keyHash z r.1 r.2.1 := by
  have hnode : ctn.or (lookup z keyHash) = lookup z keyHash := by
    rcases hctn with rfl | rfl
    · rfl
    · exact Option.or_self
  unfold Shm.storeLocked
  rw [hnode]
  cases hl : lookup z keyHash with
  | some a => exact h.storeRefresh_failed rb hl now data freshTtl staleTtl
  | none => exact h.storeCreate_failed rb hl hash now data freshTtl staleTtl

/-- The caller's reference is taken after a success only. -/
theorem NothingLost.pinWritten {keyHash : KeyHash} (wanted : Bool) {r : Zone × Rc × Option Addr}
    (h : NothingLost keyHash z r.1 r.2.1) :
    NothingLost keyHash z (Shm.pinWritten wanted r).1 (Shm.pinWritten wanted r).2.1 := by
  obtain ⟨z₁, rc, out⟩ := r
  cases rc with
  | error | declined | again => exact h
  | ok =>
    have hok := pinWritten_rc wanted (z₁, Rc.ok, out)
    unfold NothingLost
    rw [hok]
    exact ⟨by simp, by simp, by simp⟩

theorem Wf.storeMarker_failed (h : Wf held pending [] [] [] z) (keyHash : KeyHash)
    (hash : UInt32) (now : Time) (data : List UInt8) (freshTtl staleTtl : Time) :
    let r := Shm.storeMarker rb z keyHash hash now data freshTtl staleTtl
    NothingLost keyHash z r.1 r.2 := by
  have hstore := h.storeLocked_failed rb keyHash hash now data freshTtl staleTtl (Or.inr rfl)
  unfold Shm.storeMarker
  dsimp only at hstore ⊢
  cases hr : Shm.storeLocked rb z keyHash hash now data freshTtl staleTtl (lookup z keyHash) with
  | mk z₁ r =>
    obtain ⟨rc, written⟩ := r
    rw [hr] at hstore
    split
    next z₂ w he => exact ⟨by simp, by simp, by simp⟩
    next z₂ rc' w _ he =>
      obtain ⟨rfl, hrc⟩ := Prod.mk.inj he
      obtain ⟨rfl, -⟩ := Prod.mk.inj hrc
      exact hstore

/-- The code that a store answers. -/
def Answer.storeRc : Answer → Option Rc
  | .stored rc _ | .code rc => some rc
  | _ => none

end Shm
end CacheTurbo
