/-
# The two queues as a segmented LRU

`lanes z` reads the queues of a zone as the state of a segmented LRU: `lru` is the queue on
probation, `lru_protected` the guarded one, and of a node it keeps its kind, its segment,
whether its next touch promotes it, and `last_access`.  Each move of the lock-held code is
one act there: `shm_evict_one` is an eviction that passes over what the second chance spares,
`shm_drop_locked` a removal, `shm_touch_lru` a touch and `lru_enforce_cap` its demotions.

`Does z acts z'` says that a stretch of code does a list of acts, and that no node changes its
digest but those that are new.
-/

import CacheTurbo.Lib.SegmentedLru
import CacheTurbo.Shm.EvictOrder

namespace CacheTurbo
namespace Shm

open SegLru (Act Fits)

/-- What the queues know of a node. -/
def Node.mark (n : Node) : SegLru.Mark :=
  ⟨decide (n.kind = .entry), decide (n.seg = .segProtected), n.promotable, n.lastAccess⟩

/-- The two queues. -/
def lanes (z : Zone) : SegLru.State Addr := ⟨z.lru, z.lruProtected, fun a => (z.mem a).mark⟩

variable {held pending : List BlobId} {out loose : List Addr} {own : List BlobId} {z z' : Zone}

/-! ## Moves on the queues -/

theorem lanes_of_links (h : z'.links = z.links) : lanes z' = lanes z := by
  simp only [Zone.links, Prod.mk.injEq] at h
  obtain ⟨-, hlru, hprot, -, -, hmem⟩ := h
  unfold lanes
  rw [hlru, hprot, hmem]

theorem lanes_setNode (z : Zone) (a : Addr) (f : Node → Node) :
    lanes (z.setNode a f) = (lanes z).setMark a (f (z.mem a)).mark := by
  refine SegLru.State.ext rfl rfl (funext fun b => ?_)
  show ((z.setNode a f).mem b).mark = _
  by_cases hb : b = a
  · rw [hb, setNode_mem_self, SegLru.State.setMark_self]
  · rw [setNode_mem_of_ne z hb, SegLru.State.setMark_of_ne _ hb]
    rfl

/-- A write that the queues do not see. -/
theorem lanes_setNode_same (z : Zone) (a : Addr) {f : Node → Node}
    (hf : (f (z.mem a)).mark = (z.mem a).mark) : lanes (z.setNode a f) = lanes z := by
  rw [lanes_setNode, hf]
  exact SegLru.State.ext rfl rfl (Function.update_eq_self a (lanes z).mark)

theorem lanes_unlink (z : Zone) (a : Addr) : lanes (lruUnlink z a) = (lanes z).unlink a := rfl

theorem lanes_link (z : Zone) (a : Addr) : lanes (lruLinkHead z a) = (lanes z).link a := by
  unfold lruLinkHead
  by_cases hseg : (z.mem a).seg = .segProtected
  · rw [if_pos hseg, SegLru.State.link_hot (lanes z) (decide_eq_true hseg)]
    rfl
  · rw [if_neg hseg, SegLru.State.link_cold (lanes z) (decide_eq_false hseg)]
    rfl

theorem lanes_drop (rb : Rbtree) (z : Zone) (a : Addr) :
    lanes (dropLocked rb z a) = (lanes z).unlink a := by
  unfold lanes
  rw [lru_dropLocked, lruProtected_dropLocked, mem_dropLocked]
  rfl

/-! ## Evictions -/

/-- What an eviction during a call on `z` passes over: the second chance of a zone that
evictions have made of it. -/
def Chance (z : Zone) (now : Time) (passes : Addr → Bool) : Prop :=
  ∃ m, Evicts z m ∧ passes = passesOver m now

theorem Chance.of_evicts (hev : Evicts z z') {now : Time} {passes : Addr → Bool}
    (h : Chance z' now passes) : Chance z now passes := by
  obtain ⟨m, hm, hpasses⟩ := h
  exact ⟨m, hev.trans hm, hpasses⟩

/-- The victim of `shm_evict_one`. -/
theorem EvictsVictim.victim {now : Time} {v : Addr} {passed : List Addr}
    (h : EvictsVictim z z' now v passed) :
    SegLru.victim (passesOver z now) z.evictQueue = some v := by
  unfold SegLru.victim
  rcases h.order with ⟨younger, hqueue, hv⟩ | ⟨hqueue, hhead⟩
  · have hfind : (z.evictQueue.reverse.find? fun a => !passesOver z now a) = some v := by
      rw [hqueue, List.find?_append, List.find?_eq_none.2 fun a ha => by
        rw [h.chance a ha]
        exact Bool.false_ne_true, Option.none_or, List.find?_cons_of_pos (by rw [hv]; rfl)]
    rw [hfind]
    rfl
  · have hfind : (z.evictQueue.reverse.find? fun a => !passesOver z now a) = none := by
      rw [hqueue]
      refine List.find?_eq_none.2 fun a ha => ?_
      rw [h.chance a ha]
      exact Bool.false_ne_true
    rw [hfind, Option.none_or, ← List.head?_reverse, hqueue]
    exact hhead

/-- A walk marks nodes, and takes one off its queue. -/
theorem EvictsVictim.lanes {now : Time} {v : Addr} {passed : List Addr}
    (h : EvictsVictim z z' now v passed) :
    lanes z' = (Shm.lanes z).evict (passesOver z now) := by
  have hvictim : SegLru.victim (passesOver z now) (Shm.lanes z).queue = some v := h.victim
  unfold SegLru.State.evict
  rw [hvictim]
  refine SegLru.State.ext h.lru h.lruProtected (funext fun a => ?_)
  show (z'.mem a).mark = (z.mem a).mark
  rw [h.mem]
  split_ifs <;> rfl

variable (rb : Rbtree)

/-- **`shm_evict_one`** is one eviction. -/
theorem Wf.lanes_evictOne (h : Wf held pending out loose own z) (now : Time)
    (htook : (Shm.evictOne rb z now).2 = true) :
    lanes (Shm.evictOne rb z now).1 = (lanes z).evict (passesOver z now) := by
  obtain ⟨v, passed, hv⟩ := (h.evictOne_order rb now).2.2 htook
  exact hv.lanes

/-- **`shm_alloc_evict`** is some evictions. -/
theorem Wf.lanes_allocLoop (h : Wf held pending out loose own z) (now : Time) (n : ℕ) :
    ∃ chances, lanes (Shm.allocLoop rb now n z).1 = (lanes z).evicts chances ∧
      ∀ passes ∈ chances, Chance z now passes := by
  have hslab : ∀ z : Zone, lanes (slabAlloc z).1 = lanes z := by
    intro z
    unfold slabAlloc
    cases z.slab.answers z.slab.asked with
    | none => rfl
    | some p =>
      dsimp only
      split_ifs <;> rfl
  induction n generalizing z with
  | zero =>
    rw [allocLoop_zero]
    exact ⟨[], hslab z, nofun⟩
  | succ n ih =>
    rw [allocLoop_succ]
    have hasked := hslab z
    cases hs : slabAlloc z with
    | mk z₁ p =>
      rw [hs] at hasked
      cases p with
      | some p => exact ⟨[], hasked, nofun⟩
      | none =>
        obtain ⟨h₁, hev₁, -⟩ := h.slabAlloc_none hs
        obtain ⟨h₂, hev₂, -, hno⟩ := h₁.evictOne rb now
        have hone := h₁.lanes_evictOne rb now
        dsimp only at hasked ⊢
        cases he : Shm.evictOne rb z₁ now with
        | mk z₂ took =>
          rw [he] at h₂ hev₂ hno hone
          cases took with
          | false =>
            obtain ⟨hsame, -⟩ := hno rfl
            dsimp only at hsame ⊢
            rw [hsame]
            exact ⟨[], hasked, nofun⟩
          | true =>
            obtain ⟨chances, hlanes, hchances⟩ := ih h₂
            refine ⟨passesOver z₁ now :: chances, ?_, ?_⟩
            · dsimp only
              rw [hlanes, hone rfl, hasked]
              rfl
            · rintro passes (_ | ⟨_, hmem⟩)
              · exact ⟨z₁, hev₁, rfl⟩
              · exact (hchances passes hmem).of_evicts (hev₁.trans hev₂)

theorem Wf.lanes_allocEvict (h : Wf held pending out loose own z) (now : Time) (size : ℕ) :
    ∃ chances, lanes (Shm.allocEvict rb z now size).1 = (lanes z).evicts chances ∧
      ∀ passes ∈ chances, Chance z now passes := by
  obtain ⟨chances, hlanes, hchances⟩ := h.lanes_allocLoop rb now z.resident.length
  refine ⟨chances, ?_, hchances⟩
  rw [← hlanes]
  unfold Shm.allocEvict
  cases Shm.allocLoop rb now z.resident.length z with
  | mk z₁ p => cases p <;> rfl

theorem Wf.lanes_blobAlloc (h : Wf held pending out loose own z) (now : Time)
    (data : List UInt8) :
    ∃ chances, lanes (Shm.blobAlloc rb z now data).1 = (lanes z).evicts chances ∧
      ∀ passes ∈ chances, Chance z now passes := by
  obtain ⟨chances, hlanes, hchances⟩ :=
    h.lanes_allocEvict rb now (sizeofBlobref + data.length)
  refine ⟨chances, ?_, hchances⟩
  rw [← hlanes]
  unfold Shm.blobAlloc
  cases Shm.allocEvict rb z now (sizeofBlobref + data.length) with
  | mk z₁ p => cases p <;> rfl

/-! ## Touches -/

/-- **`lru_enforce_cap`**: the loop is the demotions. -/
theorem Wf.lanes_demote (h : Wf held pending [] [] [] z) (cap n : ℕ) :
    lanes (Shm.lruDemote cap n z) = (lanes z).demote cap n := by
  induction n generalizing z with
  | zero => rfl
  | succ n ih =>
    unfold Shm.lruDemote
    rw [h.queues.nProtected]
    by_cases hfull : z.lruProtected.length > cap
    swap
    · rw [if_neg hfull, SegLru.State.demote_of_le (s := lanes z) (not_lt.1 hfull)]
    · rw [if_pos hfull]
      cases hv : z.lruProtected.getLast? with
      | none =>
        rw [List.getLast?_eq_none_iff.1 hv] at hfull
        exact absurd hfull (Nat.not_lt_zero cap)
      | some v =>
        have hmem : v ∈ z.resident := List.mem_append_right _ (List.mem_of_getLast? hv)
        obtain ⟨h₁, -, -⟩ := h.relink hmem (f := fun n => { n with seg := .segProbation }) rfl rfl
          (h.queues.shape v hmem).probation
        rw [SegLru.State.demote_last (s := lanes z) hfull hv]
        dsimp only
        rw [ih h₁, lanes_link, lanes_setNode]
        rfl

/-- The mark of a node after a touch that counts. -/
theorem mark_touched (n : Node) (now : Time) (protectedPct : ℕ) :
    (touched protectedPct { n with lastAccess := now }).mark =
      SegLru.touched n.mark now protectedPct := by
  unfold touched SegLru.touched Node.mark
  by_cases hpct : protectedPct = 0
  · rw [if_pos hpct, if_pos hpct]
    rfl
  · rw [if_neg hpct, if_neg hpct]
    cases hseg : n.seg with
    | segProtected => simp
    | segProbation => cases hkind : n.kind <;> cases hready : n.promotable <;> simp

/-- The zone whose cap a touch enforces: the node is at the head of its queue. -/
def touchMoved (z : Zone) (a : Addr) (now : Time) (protectedPct : ℕ) (hash : UInt32) : Zone :=
  let z₁ : Zone := { z with sketch := sketchBump z.sketch (sketchRows hash) }
  let z₂ := z₁.setNode a fun n => { n with lastAccess := now }
  lruLinkHead ((lruUnlink z₂ a).setNode a (touched protectedPct)) a

theorem lanes_touchMoved (z : Zone) (a : Addr) (now : Time) (protectedPct : ℕ) (hash : UInt32) :
    lanes (touchMoved z a now protectedPct hash) = (lanes z).moved a now protectedPct := by
  set z₁ : Zone := { z with sketch := sketchBump z.sketch (sketchRows hash) } with hz₁
  set z₂ := z₁.setNode a fun n => { n with lastAccess := now } with hz₂
  have hmem : (lruUnlink z₂ a).mem a = { z.mem a with lastAccess := now } :=
    setNode_mem_self z₁ a fun n => { n with lastAccess := now }
  show lanes (lruLinkHead ((lruUnlink z₂ a).setNode a (touched protectedPct)) a) = _
  rw [lanes_link, lanes_setNode, hmem, mark_touched, lanes_unlink, hz₂, lanes_setNode]
  refine congrArg (fun s => SegLru.State.link s a) (SegLru.State.ext rfl rfl ?_)
  exact Function.update_idem ..

theorem Wf.touchMoved (h : Wf held pending [] [] [] z) {a : Addr} (ha : a ∈ z.resident)
    (now : Time) (protectedPct : ℕ) (hash : UInt32) :
    let z' := Shm.touchMoved z a now protectedPct hash
    Wf held pending [] [] [] z' ∧ z'.resident.Perm z.resident := by
  set z₁ : Zone := { z with sketch := sketchBump z.sketch (sketchRows hash) } with hz₁
  have h₁ : Wf held pending [] [] [] z₁ := h.of_eq rfl rfl
  have h₂ := h₁.setNode_same a (f := fun n => { n with lastAccess := now }) rfl
  obtain ⟨h₃, -, hperm⟩ := h₂.relink (a := a) (f := touched protectedPct) ha (touched_key _ _)
    (touched_core _ _) ((h₂.queues.shape a ha).touched protectedPct)
  exact ⟨h₃, hperm⟩

/-- **`shm_touch_lru`** is a touch. -/
theorem Wf.lanes_touch (h : Wf held pending [] [] [] z) {a : Addr} (ha : a ∈ z.resident)
    (now : Time) (protectedPct : ℕ) (hash : UInt32) :
    lanes (Shm.touchLru z a now protectedPct hash) =
      (lanes z).touch lruCapMaxEvict a now protectedPct := by
  obtain ⟨h₃, hperm⟩ := h.touchMoved ha now protectedPct hash
  have hmoved := lanes_touchMoved z a now protectedPct hash
  have hlen : ((lanes z).moved a now protectedPct).linked.length =
      (Shm.touchMoved z a now protectedPct hash).nEntries := by
    rw [h₃.queues.nEntries, List.append_nil, ← hmoved]
    rfl
  rw [SegLru.State.touch_eq, touchLru_eq]
  dsimp only
  show lanes (if now - (z.mem a).lastAccess < 1 then _
    else if protectedPct > 0 then Shm.lruEnforceCap (Shm.touchMoved z a now protectedPct hash)
      protectedPct else Shm.touchMoved z a now protectedPct hash) =
    if now - (z.mem a).lastAccess < 1 then _ else _
  split_ifs
  · rfl
  · rw [hlen, ← hmoved]
    exact h₃.lanes_demote _ _
  · exact hmoved

end Shm
end CacheTurbo
