/-
# The order of evictions

`Wf.evictOne` says that `shm_evict_one` takes one node out; here is which.  The
victim is taken from the probation queue unless that queue is empty, walking
from the tail: while the breaker is open the walk passes over an entry inside
its stale-if-error window that was not passed over before (`passesOver`), and
takes the tail when it passes over the whole queue (`EvictsVictim`).

`shm_alloc_evict` evicts until the slab gives a block.  Every eviction counts in
`evictions` and takes one node off the queues, so the loop ends within `n_entries`
rounds, and without a block only when no queued node is left (`AllocEnds`).

A node that was passed over carries the mark `sie_spared` until its key is
stored again.  `Spent k` is what no operation but a store of `k` takes from a
node: with the digest `k` it carries the mark or is no entry, and such a node is
never passed over.
-/

import CacheTurbo.Shm.Ops

namespace CacheTurbo
namespace Shm

variable {held pending : List BlobId} {out loose : List Addr} {own : List BlobId} {z z' : Zone}

/-! ## One eviction -/

/-- The breaker is open. -/
def breakerIsOpen (z : Zone) : Bool := brkState z.breakerState == breakerOpen

/-- The second chance of `shm_evict_one`. -/
def passesOver (z : Zone) (now : Time) (a : Addr) : Bool :=
  breakerIsOpen z && !(z.mem a).sieSpared && nodeSieLive z a now

/-- The queue `shm_evict_one` takes its victim from. -/
def Zone.evictQueue (z : Zone) : List Addr := if z.lru = [] then z.lruProtected else z.lru

theorem evictQueue_resident {a : Addr} (ha : a ∈ z.evictQueue) : a ∈ z.resident := by
  unfold Zone.evictQueue at ha
  split_ifs at ha
  · exact List.mem_append_right _ ha
  · exact List.mem_append_left _ ha

/-- The zone after the nodes of a list were passed over. -/
def marked (z : Zone) (passed : List Addr) : Zone :=
  { z with mem := fun a => if a ∈ passed then { z.mem a with sieSpared := true } else z.mem a }

theorem marked_nil (z : Zone) : marked z [] = z := by simp [marked]

theorem marked_cons (z : Zone) (q : Addr) (passed : List Addr) :
    marked (z.setNode q fun n => { n with sieSpared := true }) passed = marked z (q :: passed) := by
  have hmem : ∀ a, (marked (z.setNode q fun n => { n with sieSpared := true }) passed).mem a =
      (marked z (q :: passed)).mem a := by
    intro a
    by_cases ha : a = q
    · subst ha
      simp [marked, Zone.setNode]
    · simp [marked, Zone.setNode, ha]
  exact congrArg (fun mem => { z with mem := mem }) (funext hmem)

/-- Marking a node changes nothing for the others. -/
theorem passesOver_setNode (z : Zone) (now : Time) {q a : Addr} (ha : a ≠ q) :
    passesOver (z.setNode q fun n => { n with sieSpared := true }) now a = passesOver z now a := by
  have hmem : (z.setNode q fun n => { n with sieSpared := true }).mem a = z.mem a :=
    setNode_mem_of_ne z ha _
  unfold passesOver nodeSieLive
  rw [hmem]
  rfl

/-- Where the walk stops: at the first node that it does not pass over. -/
inductive WalkStops (z : Zone) (now : Time) (queue passed : List Addr) : Option Addr → Prop
  | victim (v : Addr) (younger : List Addr) (hqueue : queue = passed ++ v :: younger)
      (hv : passesOver z now v = false) : WalkStops z now queue passed (some v)
  | exhausted (hqueue : queue = passed) : WalkStops z now queue passed none

/-- A walk passes over nodes of its queue. -/
theorem WalkStops.subset {now : Time} {queue passed : List Addr} {v : Option Addr}
    (h : WalkStops z now queue passed v) : ∀ a ∈ passed, a ∈ queue := by
  cases h with
  | victim v younger hqueue hv => exact fun a ha => hqueue ▸ List.mem_append_left _ ha
  | exhausted hqueue => exact fun a ha => hqueue ▸ ha

/-- A walk that passes over the tail first. -/
theorem WalkStops.cons {now : Time} {q : Addr} {rest passed : List Addr} {v : Option Addr}
    (hother : ∀ a ∈ rest, a ≠ q)
    (h : WalkStops (z.setNode q fun n => { n with sieSpared := true }) now rest passed v) :
    WalkStops z now (q :: rest) (q :: passed) v := by
  cases h with
  | victim v younger hqueue hv =>
    have hmem : v ∈ rest := hqueue ▸ List.mem_append_right _ (List.mem_cons_self ..)
    rw [passesOver_setNode z now (hother v hmem)] at hv
    exact .victim v younger (congrArg (q :: ·) hqueue) hv
  | exhausted hqueue => exact .exhausted (congrArg (q :: ·) hqueue)

/-- **The walk of `shm_evict_one`.** -/
theorem Wf.evictWalk_stops {queue : List Addr} (h : Wf held pending out loose own z) (now : Time)
    (hq : ∀ q ∈ queue, q ∈ z.resident) (hnodup : queue.Nodup) :
    let r := Shm.evictWalk (breakerIsOpen z) now queue z
    ∃ passed, r.1 = marked z passed ∧ (∀ a ∈ passed, passesOver z now a = true) ∧
      WalkStops z now queue passed r.2 := by
  induction queue generalizing z with
  | nil => exact ⟨[], (marked_nil z).symm, by simp, .exhausted rfl⟩
  | cons q rest ih =>
    have hqr : q ∈ z.resident := hq q (List.mem_cons_self ..)
    obtain ⟨hfresh, hrest⟩ := List.nodup_cons.1 hnodup
    have hwalk : Shm.evictWalk (breakerIsOpen z) now (q :: rest) z =
        if passesOver z now q then
          Shm.evictWalk (breakerIsOpen z) now rest (z.setNode q fun n => { n with sieSpared := true })
        else (z, some q) := by
      rw [Shm.evictWalk]
      unfold passesOver
      rw [h.sieAccess_eq hqr]
      cases breakerIsOpen z && !(z.mem q).sieSpared <;> rfl
    rw [hwalk]
    by_cases hpass : passesOver z now q = true
    · rw [if_pos hpass]
      have hwf := h.setNode_same q (f := fun n => { n with sieSpared := true }) rfl
      obtain ⟨passed, hz, hpassed, hstop⟩ :=
        ih hwf (fun p hp => hq p (List.mem_cons_of_mem _ hp)) hrest
      have hother : ∀ a ∈ rest, a ≠ q := fun a ha he => hfresh (he ▸ ha)
      refine ⟨q :: passed, hz.trans (marked_cons z q passed), ?_, hstop.cons hother⟩
      rintro a (_ | ⟨_, ha⟩)
      · exact hpass
      · rw [← passesOver_setNode z now (hother a (hstop.subset a ha))]
        exact hpassed a ha
    · rw [if_neg hpass]
      exact ⟨[], (marked_nil z).symm, by simp, .victim q rest rfl (Bool.not_eq_true _ ▸ hpass)⟩

/-! ### The victim -/

theorem evictions_freeLocked (z : Zone) (p : Addr) (size : ℕ) :
    (freeLocked z p size).evictions = z.evictions := by
  unfold freeLocked
  split_ifs <;> rfl

theorem evictions_freeBlob (z : Zone) (b : BlobId) (bytes : ℕ) :
    (freeBlob z b bytes).evictions = z.evictions :=
  evictions_freeLocked z (z.blob b).addr bytes

theorem evictions_releaseData (z : Zone) (data : Option BlobId) :
    (releaseData z data).evictions = z.evictions := by
  cases data with
  | none => rfl
  | some b =>
    show (blobNodeRelease z b).evictions = z.evictions
    unfold blobNodeRelease
    dsimp only
    split_ifs
    · exact evictions_freeBlob _ b _
    · rfl

theorem evictions_dropLocked (rb : Rbtree) (z : Zone) (a : Addr) :
    (dropLocked rb z a).evictions = z.evictions := by
  unfold dropLocked
  dsimp only
  rw [evictions_freeLocked, evictions_releaseData]
  unfold discountMarker
  split_ifs <;> rfl

/-- `z'` is `z` without the node `v`, and with the nodes `passed` marked: `v` is the
first node from the tail that the walk does not pass over, or the tail. -/
structure EvictsVictim (z z' : Zone) (now : Time) (v : Addr) (passed : List Addr) : Prop where
  order : (∃ younger, z.evictQueue.reverse = passed ++ v :: younger ∧
      passesOver z now v = false) ∨
    z.evictQueue.reverse = passed ∧ passed.head? = some v
  chance : ∀ a ∈ passed, passesOver z now a = true
  lru : z'.lru = z.lru.erase v
  lruProtected : z'.lruProtected = z.lruProtected.erase v
  mem : ∀ a, z'.mem a = if a ∈ passed then { z.mem a with sieSpared := true } else z.mem a
  evictions : z'.evictions = z.evictions + 1

theorem EvictsVictim.mem_queue {now : Time} {v : Addr} {passed : List Addr}
    (h : EvictsVictim z z' now v passed) : v ∈ z.evictQueue := by
  rw [← List.mem_reverse]
  rcases h.order with ⟨younger, hq, -⟩ | ⟨hq, hv⟩
  · exact hq ▸ List.mem_append_right _ (List.mem_cons_self ..)
  · exact hq ▸ List.mem_of_mem_head? hv

/-- With the breaker not open the walk takes the tail and marks nothing. -/
theorem EvictsVictim.tail {now : Time} {v : Addr} {passed : List Addr}
    (h : EvictsVictim z z' now v passed) (hclosed : breakerIsOpen z = false) :
    passed = [] ∧ z.evictQueue.getLast? = some v := by
  have hnil : passed = [] := by
    refine List.eq_nil_iff_forall_not_mem.2 fun a ha => ?_
    have hpass := h.chance a ha
    simp [passesOver, hclosed] at hpass
  refine ⟨hnil, ?_⟩
  subst hnil
  rw [← List.head?_reverse]
  rcases h.order with ⟨younger, hq, -⟩ | ⟨-, hv⟩
  · rw [hq]; rfl
  · cases hv

/-- The nodes that stay queued. -/
theorem EvictsVictim.mem_resident {now : Time} {v : Addr} {passed : List Addr}
    (h : EvictsVictim z z' now v passed) (hq : Queues out z) (a : Addr) :
    a ∈ z'.resident ↔ a ∈ z.resident ∧ a ≠ v := by
  obtain ⟨hlru, hprot, -⟩ := List.nodup_append.1 hq.resident_nodup
  unfold Zone.resident
  rw [h.lru, h.lruProtected, List.mem_append, List.mem_append, hlru.mem_erase_iff,
    hprot.mem_erase_iff]
  tauto

/-- The victim is out of the tree, and no other node is. -/
theorem EvictsVictim.lookup {now : Time} {v : Addr} {passed : List Addr}
    (h : EvictsVictim z z' now v passed) (hq : Queues out z) (hq' : Queues out z')
    (keyHash : KeyHash) :
    Shm.lookup z' keyHash =
      if Shm.lookup z keyHash = some v then none else Shm.lookup z keyHash := by
  have hkey : ∀ a, (z'.mem a).key = (z.mem a).key := by
    intro a
    rw [h.mem]
    split_ifs <;> rfl
  have hout : v ∉ out := hq.not_mem_out (evictQueue_resident h.mem_queue)
  have hfound : ∀ a, Shm.lookup z' keyHash = some a ↔ Shm.lookup z keyHash = some a ∧ a ≠ v := by
    intro a
    rw [hq'.lookup_iff, hq.lookup_iff, hkey, h.mem_resident hq]
    constructor
    · rintro ⟨⟨ha, hne⟩ | ha, hk⟩
      · exact ⟨⟨Or.inl ha, hk⟩, hne⟩
      · exact ⟨⟨Or.inr ha, hk⟩, fun he => hout (he ▸ ha)⟩
    · rintro ⟨⟨ha | ha, hk⟩, hne⟩
      · exact ⟨Or.inl ⟨ha, hne⟩, hk⟩
      · exact ⟨Or.inr ha, hk⟩
  refine Option.ext fun a => ?_
  rw [hfound]
  split_ifs with hv
  · rw [hv]
    constructor
    · rintro ⟨he, hne⟩
      exact absurd (Option.some.inj he).symm hne
    · exact fun he => by cases he
  · constructor
    · exact fun he => he.1
    · rintro he
      exact ⟨he, fun ha => hv (ha ▸ he)⟩

variable (rb : Rbtree)

/-- One eviction from the queue that has to give a node. -/
theorem Wf.evictFrom_victim (h : Wf held pending out loose own z) (now : Time) {last : Addr}
    {rest : List Addr} (hqueue : z.evictQueue.reverse = last :: rest) :
    ∃ v passed, EvictsVictim z
      (Shm.evictFrom rb z (breakerIsOpen z) now last (last :: rest)) now v passed := by
  have hmem : ∀ q ∈ last :: rest, q ∈ z.resident := fun q hq =>
    evictQueue_resident (List.mem_reverse.1 (hqueue ▸ hq))
  have hnodup : (last :: rest).Nodup := by
    rw [← hqueue, List.nodup_reverse]
    unfold Zone.evictQueue
    split_ifs
    · exact (List.nodup_append.1 h.queues.resident_nodup).2.1
    · exact (List.nodup_append.1 h.queues.resident_nodup).1
  obtain ⟨passed, hz, hpassed, hstop⟩ := h.evictWalk_stops now hmem hnodup
  set r := Shm.evictWalk (breakerIsOpen z) now (last :: rest) z with hr
  have hto : Shm.evictFrom rb z (breakerIsOpen z) now last (last :: rest) =
      { dropLocked rb r.1 (r.2.getD last) with
        evictions := (dropLocked rb r.1 (r.2.getD last)).evictions + 1 } := rfl
  refine ⟨r.2.getD last, passed, ?_, hpassed, ?_, ?_, ?_, ?_⟩
  · rw [hqueue]
    cases hv : r.2 with
    | none =>
      rw [hv] at hstop
      cases hstop with
      | exhausted heq => exact Or.inr ⟨heq, heq ▸ rfl⟩
    | some v =>
      rw [hv] at hstop
      cases hstop with
      | victim _ younger heq hno => exact Or.inl ⟨younger, heq, hno⟩
  · rw [hto, hz]
    exact lru_dropLocked rb (marked z passed) _
  · rw [hto, hz]
    exact lruProtected_dropLocked rb (marked z passed) _
  · intro a
    rw [hto, hz]
    exact congrFun (mem_dropLocked rb (marked z passed) _) a
  · rw [hto, hz]
    exact congrArg (· + 1) (evictions_dropLocked rb (marked z passed) _)

/-- **Which node `shm_evict_one` takes.**  It answers that it took one iff a queue
has a node; then the victim is one of the probation queue unless that is empty. -/
theorem Wf.evictOne_order (h : Wf held pending out loose own z) (now : Time) :
    let r := Shm.evictOne rb z now
    (r.2 = true ↔ z.lru ≠ [] ∨ z.lruProtected ≠ []) ∧ (r.2 = false → r.1 = z) ∧
      (r.2 = true → ∃ v passed, EvictsVictim z r.1 now v passed) := by
  unfold Shm.evictOne
  dsimp only
  cases hl : z.lru.reverse with
  | cons last rest =>
    have hne : z.lru ≠ [] := fun he => by simp [he] at hl
    have hqueue : z.evictQueue.reverse = last :: rest := by
      rw [Zone.evictQueue, if_neg hne, hl]
    exact ⟨iff_of_true rfl (Or.inl hne), by simp, fun _ => h.evictFrom_victim rb now hqueue⟩
  | nil =>
    have hnil : z.lru = [] := List.reverse_eq_nil_iff.1 hl
    cases hp : z.lruProtected.reverse with
    | cons last rest =>
      have hne : z.lruProtected ≠ [] := fun he => by simp [he] at hp
      have hqueue : z.evictQueue.reverse = last :: rest := by
        rw [Zone.evictQueue, if_pos hnil, hp]
      exact ⟨iff_of_true rfl (Or.inr hne), by simp, fun _ => h.evictFrom_victim rb now hqueue⟩
    | nil =>
      have hnil' : z.lruProtected = [] := List.reverse_eq_nil_iff.1 hp
      exact ⟨by simp [hnil, hnil'], fun _ => rfl, by simp⟩

/-! ## The loop of `shm_alloc_evict` -/

theorem slabAlloc_frame (z : Zone) :
    (slabAlloc z).1.evictions = z.evictions ∧ (slabAlloc z).1.resident = z.resident ∧
      (slabAlloc z).1.mem = z.mem ∧ (slabAlloc z).1.nEntries = z.nEntries := by
  unfold slabAlloc
  cases z.slab.answers z.slab.asked with
  | none => exact ⟨rfl, rfl, rfl, rfl⟩
  | some p =>
    dsimp only
    split_ifs <;> exact ⟨rfl, rfl, rfl, rfl⟩

/-- An eviction counts for the node it takes. -/
theorem Wf.evictOne_balance (h : Wf held pending out loose own z) (now : Time) :
    let r := Shm.evictOne rb z now
    r.1.evictions + r.1.resident.length = z.evictions + z.resident.length := by
  obtain ⟨-, hsame, hvictim⟩ := h.evictOne_order rb now
  obtain ⟨-, -, hless, -⟩ := h.evictOne rb now
  dsimp only at *
  cases htook : (Shm.evictOne rb z now).2 with
  | true =>
    obtain ⟨v, passed, hv⟩ := hvictim htook
    have hlen := hless htook
    have hcount := hv.evictions
    omega
  | false => rw [hsame htook]

/-- Every eviction of the loop counts for a node that is gone. -/
theorem Wf.allocLoop_balance (h : Wf held pending out loose own z) (now : Time) (n : ℕ) :
    let r := Shm.allocLoop rb now n z
    r.1.evictions + r.1.resident.length = z.evictions + z.resident.length := by
  induction n generalizing z with
  | zero =>
    rw [allocLoop_zero]
    obtain ⟨hev, hres, -, -⟩ := slabAlloc_frame z
    dsimp only
    rw [hev, hres]
  | succ n ih =>
    rw [allocLoop_succ]
    obtain ⟨hev, hres, -, -⟩ := slabAlloc_frame z
    cases hs : slabAlloc z with
    | mk z₁ p =>
      rw [hs] at hev hres
      cases p with
      | some p =>
        dsimp only at hev hres ⊢
        rw [hev, hres]
      | none =>
        obtain ⟨h₁, -, -⟩ := h.slabAlloc_none hs
        have hbal := h₁.evictOne_balance rb now
        obtain ⟨h₂, -, -, -⟩ := h₁.evictOne rb now
        dsimp only at hev hres hbal ⊢
        rw [hev, hres] at hbal
        cases he : Shm.evictOne rb z₁ now with
        | mk z₂ took =>
          rw [he] at hbal h₂
          cases took with
          | true => exact (ih h₂).trans hbal
          | false => exact hbal

/-- The loop ends without a block only when the slab refused with both queues empty. -/
theorem Wf.allocLoop_null (h : Wf held pending out loose own z) {now : Time} {n : ℕ}
    (hn : z.resident.length ≤ n) (hnull : Shm.allocLoop rb now n z = (z', none)) :
    z'.resident = [] ∧ ∃ z₁, z₁.resident = [] ∧ slabAlloc z₁ = (z', none) := by
  induction n generalizing z with
  | zero =>
    have hnil : z.resident = [] := List.eq_nil_of_length_eq_zero (Nat.le_zero.1 hn)
    rw [allocLoop_zero] at hnull
    obtain ⟨-, -, hres⟩ := h.slabAlloc_none hnull
    exact ⟨hres.trans hnil, z, hnil, hnull⟩
  | succ n ih =>
    rw [allocLoop_succ] at hnull
    cases hs : slabAlloc z with
    | mk z₁ p =>
      rw [hs] at hnull
      cases p with
      | some p => simp at hnull
      | none =>
        obtain ⟨h₁, -, hres⟩ := h.slabAlloc_none hs
        obtain ⟨h₂, -, hless, hempty⟩ := h₁.evictOne rb now
        dsimp only at hnull
        cases he : Shm.evictOne rb z₁ now with
        | mk z₂ took =>
          rw [he] at hnull h₂ hless hempty
          cases took with
          | true =>
            have hlen := hless rfl
            dsimp only at h₂ hlen
            refine ih h₂ ?_ hnull
            rw [hres] at hlen
            omega
          | false =>
            obtain ⟨heq, hnil⟩ := hempty rfl
            dsimp only at heq
            obtain rfl : z₂ = z' := congrArg Prod.fst hnull
            rw [heq]
            exact ⟨hnil, z, hres ▸ hnil, hs⟩

/-- More rounds than nodes make no difference. -/
theorem Wf.allocLoop_enough (h : Wf held pending out loose own z) (now : Time) {n : ℕ}
    (hn : z.resident.length ≤ n) :
    Shm.allocLoop rb now n z = Shm.allocLoop rb now z.resident.length z := by
  induction n, hn using Nat.le_induction with
  | base => rfl
  | succ n hn ih => exact (h.allocLoop_fuel rb hn).trans ih

/-- **The loop without its bound**: one round, and the rest of the loop. -/
theorem Wf.allocLoop_while (h : Wf held pending out loose own z) (now : Time) :
    Shm.allocLoop rb now z.resident.length z =
      match slabAlloc z with
      | (z₁, some p) => (z₁, some p)
      | (z₁, none) =>
          match Shm.evictOne rb z₁ now with
          | (z₂, true) => Shm.allocLoop rb now z₂.resident.length z₂
          | (z₂, false) => (z₂, none) := by
  rw [← h.allocLoop_fuel rb le_rfl, allocLoop_succ]
  cases hs : slabAlloc z with
  | mk z₁ p =>
    cases p with
    | some p => rfl
    | none =>
      obtain ⟨h₁, -, hres⟩ := h.slabAlloc_none hs
      obtain ⟨h₂, -, hless, -⟩ := h₁.evictOne rb now
      dsimp only
      cases he : Shm.evictOne rb z₁ now with
      | mk z₂ took =>
        rw [he] at h₂ hless
        cases took with
        | true =>
          have hlen := hless rfl
          dsimp only at h₂ hlen
          refine h₂.allocLoop_enough rb now ?_
          rw [← hres]
          omega
        | false => rfl

/-- How `shm_alloc_evict` ends. -/
structure AllocEnds (z : Zone) (now : Time) (size : ℕ) : Prop where
  loop : Shm.allocLoop rb now z.resident.length z =
    match slabAlloc z with
    | (z₁, some p) => (z₁, some p)
    | (z₁, none) =>
        match Shm.evictOne rb z₁ now with
        | (z₂, true) => Shm.allocLoop rb now z₂.resident.length z₂
        | (z₂, false) => (z₂, none)
  gone : (Shm.allocEvict rb z now size).1.evictions +
    (Shm.allocEvict rb z now size).1.resident.length = z.evictions + z.resident.length
  bound : (Shm.allocEvict rb z now size).1.evictions ≤ z.evictions + z.nEntries
  null : (Shm.allocEvict rb z now size).2 = none →
    (Shm.allocEvict rb z now size).1.resident = [] ∧
      ∃ z₁, z₁.resident = [] ∧ slabAlloc z₁ = ((Shm.allocEvict rb z now size).1, none)

/-- **`shm_alloc_evict` ends**, after at most `n_entries` evictions. -/
theorem Wf.allocEnds (h : Wf held pending out loose own z) (now : Time) (size : ℕ) :
    AllocEnds rb z now size := by
  have hbal := h.allocLoop_balance rb now z.resident.length
  have hcount : z.resident.length ≤ z.nEntries := by
    rw [h.queues.nEntries, List.length_append]
    exact Nat.le_add_right _ _
  have hto : (Shm.allocEvict rb z now size).1.evictions =
        (Shm.allocLoop rb now z.resident.length z).1.evictions ∧
      (Shm.allocEvict rb z now size).1.resident =
        (Shm.allocLoop rb now z.resident.length z).1.resident := by
    unfold Shm.allocEvict
    cases Shm.allocLoop rb now z.resident.length z with
    | mk z₁ p => cases p <;> exact ⟨rfl, rfl⟩
  obtain ⟨hev, hres⟩ := hto
  dsimp only at hbal
  rw [← hev, ← hres] at hbal
  refine ⟨h.allocLoop_while rb now, hbal, by omega, fun hnull => ?_⟩
  unfold Shm.allocEvict at hnull ⊢
  cases hloop : Shm.allocLoop rb now z.resident.length z with
  | mk z₁ p =>
    rw [hloop] at hnull
    cases p with
    | some p => simp at hnull
    | none => exact h.allocLoop_null rb le_rfl hloop

end Shm
end CacheTurbo
