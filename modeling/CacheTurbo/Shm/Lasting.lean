/-
# Properties of a node that operations leave alone

A property `P` of nodes passes from a zone to the next one (`Steady P`) when no
block that has it loses it.  Lock-held functions write nodes in a few ways only:
an eviction marks a node, the queues relabel one, an operation on a digest updates
its node or writes a new counter, and a store writes a whole node.  `Lasting`,
`Updates` and `Stores` say that `P` survives each of these, and `Steady.exec` that
it then survives every operation, evictions in its middle included.

The property may be about the nodes of one digest, `n.key = k → …`, for which the
operations on other digests have nothing to show.
-/

import CacheTurbo.Shm.EvictOrder
import CacheTurbo.Shm.Markers
import CacheTurbo.Shm.ResolveMiss

namespace CacheTurbo
namespace Shm

/-- No block loses the property from `z` to `z'`. -/
def Steady (P : Node → Prop) (z z' : Zone) : Prop := ∀ a, P (z.mem a) → P (z'.mem a)

/-- The property survives the mark of an eviction and the labels of the queues. -/
structure Lasting (P : Node → Prop) : Prop where
  mark : ∀ n, P n → P { n with sieSpared := true }
  label : ∀ n n' : Node, n'.key = n.key → n'.core = n.core → n'.lastAccess = n.lastAccess →
    n'.sieSpared = n.sieSpared → P n → P n'

/-- The property survives what an operation on the digest `k` that is no store writes:
an update of its node, and a new counter. -/
structure Updates (P : Node → Prop) (k : KeyHash) : Prop where
  update : ∀ n n' : Node, n.key = k → n'.key = k → n'.kind = n.kind →
    n'.sieSpared = n.sieSpared → P n → P n'
  create : ∀ n : Node, n.key = k → n.kind = .counter → P n

/-- Every node of the digest `k` has the property. -/
def Stores (P : Node → Prop) (k : KeyHash) : Prop := ∀ n : Node, n.key = k → P n

variable {held pending : List BlobId} {z z' z'' : Zone} {P : Node → Prop} {k : KeyHash}

theorem Stores.updates (h : Stores P k) : Updates P k :=
  ⟨fun _ n' _ hn _ _ _ => h n' hn, fun n hn _ => h n hn⟩

namespace Steady

theorem refl (P : Node → Prop) (z : Zone) : Steady P z z := fun _ h => h

theorem trans (h : Steady P z z') (h' : Steady P z' z'') : Steady P z z'' :=
  fun a ha => h' a (h a ha)

theorem of_mem (h : z'.mem = z.mem) : Steady P z z' := fun a ha => by rw [h]; exact ha

/-- A write to one block. -/
theorem write (z : Zone) (a : Addr) {f : Node → Node} (hf : P (z.mem a) → P (f (z.mem a))) :
    Steady P z (z.setNode a f) := by
  intro b hb
  by_cases hba : b = a
  · subst hba
    rw [setNode_mem_self]
    exact hf hb
  · rw [setNode_mem_of_ne z hba]
    exact hb

/-- The fields of a node that an update keeps. -/
def chance (n : Node) : KeyHash × NodeKind × Bool := (n.key, n.kind, n.sieSpared)

/-- An update of the node of `k`. -/
theorem update (hP : Updates P k) (z : Zone) {a : Addr} (ha : (z.mem a).key = k) {f : Node → Node}
    (hf : chance (f (z.mem a)) = chance (z.mem a)) : Steady P z (z.setNode a f) := by
  simp only [chance, Prod.mk.injEq] at hf
  obtain ⟨hkey, hkind, hspared⟩ := hf
  exact write z a (hP.update _ _ ha (hkey.trans ha) hkind hspared)

/-! ### Evictions -/

theorem access (z : Zone) (b : BlobId) : Steady P z (z.access b) := by
  unfold Zone.access
  split_ifs <;> exact refl P z

theorem acquire (z : Zone) (b : BlobId) : Steady P z (blobAcquire z b) :=
  (access z b).trans (of_mem rfl)

theorem pinData (z : Zone) (data : Option BlobId) : Steady P z (Shm.pinData z data) := by
  cases data with
  | none => exact refl P z
  | some b => exact acquire z b

theorem link (z : Zone) (a : Addr) : Steady P z (lruLinkHead z a) := of_mem (Kept.mem_link z a)

theorem release (z : Zone) (data : Option BlobId) : Steady P z (releaseData z data) :=
  of_mem (congrArg (fun l => l.2.2.2.2.2) (links_releaseData z data))

theorem free (z : Zone) (p : Addr) (size : ℕ) : Steady P z (freeLocked z p size) :=
  of_mem (congrArg (fun l => l.2.2.2.2.2) (links_freeLocked z p size))

theorem evictWalk (hl : Lasting P) (isOpen : Bool) (now : Time) (queue : List Addr) (z : Zone) :
    Steady P z (Shm.evictWalk isOpen now queue z).1 := by
  induction queue generalizing z with
  | nil => exact refl P z
  | cons q rest ih =>
    have hacc : Steady P z (sieAccess z q) := by
      unfold sieAccess
      split
      · exact access z _
      · exact refl P z
    unfold Shm.evictWalk
    split_ifs
    · exact (hacc.trans (write _ q (hl.mark _))).trans (ih _)
    · exact hacc
    · exact refl P z

variable (rb : Rbtree)

theorem drop (z : Zone) (a : Addr) : Steady P z (dropLocked rb z a) :=
  of_mem (mem_dropLocked rb z a)

theorem evictOne (hl : Lasting P) (z : Zone) (now : Time) :
    Steady P z (Shm.evictOne rb z now).1 := by
  have hfrom : ∀ last queue, Steady P z (Shm.evictFrom rb z
      (brkState z.breakerState == breakerOpen) now last queue) := fun last queue =>
    (evictWalk hl _ now queue z).trans (drop rb _ _)
  unfold Shm.evictOne
  cases z.lru.reverse with
  | cons last rest => exact hfrom _ _
  | nil =>
    cases z.lruProtected.reverse with
    | cons last rest => exact hfrom _ _
    | nil => exact refl P z

theorem allocLoop (hl : Lasting P) (now : Time) (n : ℕ) (z : Zone) :
    Steady P z (Shm.allocLoop rb now n z).1 := by
  have hslab : ∀ y, Steady P y (slabAlloc y).1 := fun y => of_mem (slabAlloc_frame y).2.2.1
  induction n generalizing z with
  | zero =>
    rw [allocLoop_zero]
    exact hslab z
  | succ n ih =>
    have hfirst := hslab z
    rw [allocLoop_succ]
    cases hs : slabAlloc z with
    | mk z₁ p =>
      rw [hs] at hfirst
      cases p with
      | some p => exact hfirst
      | none =>
        have hone : Steady P z₁ (Shm.evictOne rb z₁ now).1 := evictOne rb hl z₁ now
        dsimp only
        cases he : Shm.evictOne rb z₁ now with
        | mk z₂ took =>
          rw [he] at hone
          cases took with
          | true => exact (hfirst.trans hone).trans (ih z₂)
          | false => exact hfirst.trans hone

theorem allocEvict (hl : Lasting P) (z : Zone) (now : Time) (size : ℕ) :
    Steady P z (Shm.allocEvict rb z now size).1 := by
  have hloop : Steady P z (Shm.allocLoop rb now z.resident.length z).1 := allocLoop rb hl now _ z
  unfold Shm.allocEvict
  cases he : Shm.allocLoop rb now z.resident.length z with
  | mk z₁ p =>
    rw [he] at hloop
    cases p <;> exact hloop

theorem blobAlloc (hl : Lasting P) (z : Zone) (now : Time) (data : List UInt8) :
    Steady P z (Shm.blobAlloc rb z now data).1 := by
  have halloc : Steady P z (Shm.allocEvict rb z now (sizeofBlobref + data.length)).1 :=
    allocEvict rb hl z now _
  unfold Shm.blobAlloc
  cases he : Shm.allocEvict rb z now (sizeofBlobref + data.length) with
  | mk z₁ p =>
    rw [he] at halloc
    cases p <;> exact halloc

/-! ### The queues -/

/-- A new node. -/
theorem create (z : Zone) (a : Addr) {write : Node → Node}
    (hnew : P { write (z.mem a) with
      seg := .segProbation, sieSpared := false, varidxPending := false }) :
    Steady P z (createNode rb z a write) := by
  intro b hb
  by_cases hba : b = a
  · subst hba
    rw [createNode_mem]
    exact hnew
  · have hmem : (createNode rb z a write).mem b = z.mem b := by
      simp [createNode, lruInsertNew, rbtreeInsert, Zone.setNode, hba]
    rw [hmem]
    exact hb

theorem lruDemote (hl : Lasting P) (cap fuel : ℕ) (z : Zone) :
    Steady P z (Shm.lruDemote cap fuel z) := by
  induction fuel generalizing z with
  | zero => exact refl P z
  | succ fuel ih =>
    unfold Shm.lruDemote
    split_ifs
    · cases z.lruProtected.getLast? with
      | none => exact refl P z
      | some victim =>
        have hwrite : Steady P z ((lruUnlink z victim).setNode victim
            fun n => { n with seg := .segProbation }) :=
          write (lruUnlink z victim) victim (hl.label _ _ rfl rfl rfl rfl)
        exact (hwrite.trans (link _ victim)).trans (ih _)
    · exact refl P z

/-- `shm_touch_lru` on the node of `k`. -/
theorem touchLru (hl : Lasting P) (hP : Updates P k) (z : Zone) {a : Addr} (ha : (z.mem a).key = k)
    (now : Time) (protectedPct : ℕ) (hash : UInt32) :
    Steady P z (Shm.touchLru z a now protectedPct hash) := by
  have htouched : ∀ n : Node, chance (touched protectedPct n) = chance n := by
    intro n
    unfold touched
    split_ifs <;> rfl
  rw [touchLru_eq]
  dsimp only
  set z₁ : Zone := { z with sketch := sketchBump z.sketch (sketchRows hash) }
  set z₂ := z₁.setNode a fun n => { n with lastAccess := now } with hz₂
  have hkey₂ : (z₂.mem a).key = k := by
    rw [hz₂, setNode_mem_self]
    exact ha
  have hstamp : Steady P z z₂ := update hP z₁ (f := fun n => { n with lastAccess := now }) ha rfl
  have hunlink : Steady P z₂ (lruUnlink z₂ a) := refl P z₂
  have hmoved : Steady P z (lruLinkHead ((lruUnlink z₂ a).setNode a (touched protectedPct)) a) :=
    ((hstamp.trans hunlink).trans (update hP (lruUnlink z₂ a) hkey₂ (htouched _))).trans (link _ a)
  split_ifs
  · exact refl P z
  · exact hmoved.trans (lruDemote hl _ _ _)
  · exact hmoved

theorem dropHeads (queue : Zone → List Addr) (limit : ℕ) (z : Zone) :
    Steady P z (Shm.dropHeads rb queue limit z).1 := by
  induction limit generalizing z with
  | zero => exact refl P z
  | succ limit ih =>
    unfold Shm.dropHeads
    cases queue z with
    | nil => exact refl P z
    | cons head rest => exact (drop rb z head).trans (ih _)

theorem purgeBatch (z : Zone) (remaining : ℕ) : Steady P z (Shm.purgeBatch rb z remaining).1 :=
  (dropHeads rb _ _ z).trans (dropHeads rb _ _ _)

theorem purgeLoop (fuel : ℕ) (z : Zone) (remaining purged : ℕ) :
    Steady P z (Shm.purgeLoop rb fuel z remaining purged).1 := by
  induction fuel generalizing z remaining purged with
  | zero => exact refl P z
  | succ fuel ih =>
    unfold Shm.purgeLoop
    dsimp only
    split_ifs
    · exact refl P z
    · exact purgeBatch rb z remaining
    · exact purgeBatch rb z remaining
    · exact (purgeBatch rb z remaining).trans (ih _ _ _)

theorem purgeAll (z : Zone) : Steady P z (Shm.purgeAll rb z).1 := by
  unfold Shm.purgeAll
  split_ifs
  · exact refl P z
  · exact purgeLoop rb _ z _ _

/-! ### Stores -/

theorem storeRefresh (hl : Lasting P) (hP : Stores P k) (h : Wf held pending [] [] [] z) {a : Addr}
    (ha : a ∈ z.resident) (hk : (z.mem a).key = k) (now : Time) (data : List UInt8)
    (freshTtl staleTtl : Time) :
    Steady P z (Shm.storeRefresh rb z now data freshTtl staleTtl a).1 := by
  have h₁ := h.unlink ha
  have hoff : a ∉ (lruUnlink z a).resident := fun hc =>
    h₁.queues.not_mem_out hc (List.mem_cons_self ..)
  have halloc : Steady P z (Shm.blobAlloc rb (lruUnlink z a) now data).1 :=
    blobAlloc rb hl (lruUnlink z a) now data
  unfold Shm.storeRefresh
  cases hb : Shm.blobAlloc rb (lruUnlink z a) now data with
  | mk z₁ body =>
    rw [hb] at halloc
    cases body with
    | none => exact halloc.trans (link z₁ a)
    | some body =>
      obtain ⟨-, hev, -⟩ := h₁.blobAlloc rb hb
      have hlinks := links_releaseData z₁ (z₁.mem a).data
      have hmem : (releaseData z₁ (z₁.mem a).data).mem a = z.mem a :=
        (congrFun (congrArg (fun l => l.2.2.2.2.2) hlinks) a).trans (hev.off a hoff)
      have hfree := halloc.trans (release z₁ (z₁.mem a).data)
      refine (hfree.trans (write _ a fun _ => hP _ ?_)).trans (link _ a)
      rw [hmem]
      exact hk

theorem storeCreate (hl : Lasting P) (hP : Stores P k) (z : Zone) (hash : UInt32) (now : Time)
    (data : List UInt8) (freshTtl staleTtl : Time) :
    Steady P z (Shm.storeCreate rb z k hash now data freshTtl staleTtl).1 := by
  have hadmit : (shmAdmit z hash).1.mem = z.mem := by
    rcases shmAdmit_eq z hash with he | he <;> rw [he]
  unfold Shm.storeCreate
  cases ha : shmAdmit z hash with
  | mk z₁ admitted =>
    rw [ha] at hadmit
    cases admitted with
    | false => exact of_mem hadmit
    | true =>
      have hnode : Steady P z (Shm.allocEvict rb z₁ now sizeofNode).1 :=
        (of_mem hadmit).trans (allocEvict rb hl z₁ now sizeofNode)
      dsimp only
      cases hn : Shm.allocEvict rb z₁ now sizeofNode with
      | mk z₂ p =>
        rw [hn] at hnode
        cases p with
        | none => exact hnode
        | some a =>
          have hblob : Steady P z (Shm.blobAlloc rb z₂ now data).1 :=
            hnode.trans (blobAlloc rb hl z₂ now data)
          dsimp only
          cases hb : Shm.blobAlloc rb z₂ now data with
          | mk z₃ body =>
            rw [hb] at hblob
            cases body with
            | none => exact hblob.trans (free z₃ a sizeofNode)
            | some body => exact hblob.trans (create rb z₃ a (hP _ rfl))

theorem storeLocked (hl : Lasting P) (hP : Stores P k) (h : Wf held pending [] [] [] z)
    (hash : UInt32) (now : Time) (data : List UInt8) (freshTtl staleTtl : Time) {ctn : Option Addr}
    (hctn : ctn = none ∨ ctn = lookup z k) :
    Steady P z (Shm.storeLocked rb z k hash now data freshTtl staleTtl ctn).1 := by
  have hnode : ctn.or (lookup z k) = lookup z k := by
    rcases hctn with rfl | rfl
    · rfl
    · exact Option.or_self
  unfold Shm.storeLocked
  rw [hnode]
  cases hf : lookup z k with
  | some a =>
    obtain ⟨ha, hk⟩ := h.queues.lookup_resident hf
    exact storeRefresh rb hl hP h ha hk now data freshTtl staleTtl
  | none => exact storeCreate rb hl hP z hash now data freshTtl staleTtl

theorem pinWritten (wanted : Bool) (r : Zone × Rc × Option Addr) :
    Steady P r.1 (Shm.pinWritten wanted r).1 := by
  obtain ⟨z, rc, out⟩ := r
  unfold Shm.pinWritten
  split
  next z₂ written he =>
    obtain ⟨rfl, -⟩ := Prod.mk.inj he
    split_ifs
    · split
      · exact acquire z _
      · exact refl P z
    · exact refl P z
  next z₂ rc' out' _ he =>
    obtain ⟨rfl, -⟩ := Prod.mk.inj he
    exact refl P z

theorem storeMarker (hl : Lasting P) (hP : Stores P k) (h : Wf held pending [] [] [] z)
    (hash : UInt32) (now : Time) (data : List UInt8) (freshTtl staleTtl : Time) :
    Steady P z (Shm.storeMarker rb z k hash now data freshTtl staleTtl).1 := by
  have hstore := storeLocked rb hl hP h hash now data freshTtl staleTtl (Or.inr rfl)
  obtain ⟨-, hspec⟩ := h.storeLocked rb k hash now data freshTtl staleTtl (Or.inr rfl)
  unfold Shm.storeMarker
  dsimp only at hspec ⊢
  cases hr : Shm.storeLocked rb z k hash now data freshTtl staleTtl (lookup z k) with
  | mk z₁ r =>
    obtain ⟨rc, written⟩ := r
    rw [hr] at hstore hspec
    split
    next z₂ w he =>
      obtain ⟨rfl, hrc⟩ := Prod.mk.inj he
      obtain ⟨rfl, rfl⟩ := Prod.mk.inj hrc
      have hkey : (z₁.mem w).key = k := by
        rcases hspec with ⟨hno, -, -⟩ | ⟨a, b, hw, hs⟩
        · exact absurd rfl hno
        · obtain rfl : w = a := Option.some.inj (Prod.mk.inj hw).2
          exact hs.key
      have hmark : Steady P z (z₁.setNode w fun n => { n with kind := .marker }) :=
        hstore.trans (write z₁ w fun _ => hP _ hkey)
      split_ifs
      · exact hmark
      · exact hmark.trans (of_mem rfl)
    next z₂ rc' w _ he =>
      obtain ⟨rfl, -⟩ := Prod.mk.inj he
      exact hstore

/-! ### The other operations -/

theorem freshen (hP : Updates P k) (h : Wf held pending [] [] [] z) (now freshTtl staleTtl : Time) :
    Steady P z (Shm.freshen z k now freshTtl staleTtl).1 := by
  unfold Shm.freshen
  cases hf : lookup z k with
  | none => exact refl P z
  | some a =>
    obtain ⟨-, hk⟩ := h.queues.lookup_resident hf
    dsimp only
    by_cases hno : (z.mem a).kind ≠ .entry ∨ (z.mem a).len = 0
    · rw [if_pos hno]
      exact refl P z
    · rw [if_neg hno]
      dsimp only
      exact update hP z hk rfl

/-- The allocation of a counter node, whatever else the block is written with. -/
theorem counterAlloc (hl : Lasting P) (hP : Updates P k) (z : Zone) (now : Time) {z₁ : Zone}
    {a : Addr} (ha : Shm.allocEvict rb z now sizeofNode = (z₁, some a)) (seq : ℕ)
    {write : Node → Node} (hkey : (write (z₁.mem a)).key = k)
    (hkind : (write (z₁.mem a)).kind = .counter) :
    Steady P z (createNode rb { z₁ with ownerSeq := seq } a write) := by
  have halloc : Steady P z (Shm.allocEvict rb z now sizeofNode).1 := allocEvict rb hl z now sizeofNode
  rw [ha] at halloc
  exact halloc.trans ((of_mem rfl).trans
    (create rb { z₁ with ownerSeq := seq } a (hP.create _ hkey hkind)))

/-- `shm_claim_locked` on the node that a lookup found. -/
theorem claimLocked (hl : Lasting P) (hP : Updates P k) (h : Wf held pending [] [] [] z)
    (hash : UInt32) (lockTtl now : Time) (pin : Bool) :
    Steady P z (Shm.claimLocked rb z hash k lockTtl (lookup z k) now pin).1 := by
  unfold Shm.claimLocked
  cases hf : lookup z k with
  | some a =>
    obtain ⟨-, hk⟩ := h.queues.lookup_resident hf
    dsimp only
    split_ifs
    · exact pinData z _
    · exact refl P z
    · exact refl P z
    · dsimp only
      exact (of_mem rfl).trans (update hP { z with ownerSeq := z.ownerSeq + 1 } hk rfl)
  | none =>
    have halloc : Steady P z (Shm.allocEvict rb z now sizeofNode).1 :=
      allocEvict rb hl z now sizeofNode
    dsimp only
    cases ha : Shm.allocEvict rb z now sizeofNode with
    | mk z₁ p =>
      rw [ha] at halloc
      cases p with
      | none => exact halloc
      | some a => exact counterAlloc rb hl hP z now ha _ rfl rfl

/-- `shm_count_miss_locked` on the node that a lookup found. -/
theorem countMissLocked (hl : Lasting P) (hP : Updates P k) (h : Wf held pending [] [] [] z)
    (hash : UInt32) (minUses : ℤ) (window now : Time) :
    Steady P z (Shm.countMissLocked rb z k hash minUses window (lookup z k) now).1 := by
  unfold Shm.countMissLocked
  cases hf : lookup z k with
  | some a =>
    obtain ⟨-, hk⟩ := h.queues.lookup_resident hf
    dsimp only
    split_ifs
    · exact refl P z
    · exact refl P z
    all_goals
      dsimp only
      exact update hP z hk rfl
  | none =>
    have halloc : Steady P z (Shm.allocEvict rb z now sizeofNode).1 :=
      allocEvict rb hl z now sizeofNode
    dsimp only
    cases ha : Shm.allocEvict rb z now sizeofNode with
    | mk z₁ p =>
      rw [ha] at halloc
      cases p with
      | none => exact halloc
      | some a => exact counterAlloc rb hl hP z now ha z₁.ownerSeq rfl rfl

theorem resolveMiss (hl : Lasting P) (hP : Updates P k) (h : Wf held pending [] [] [] z)
    (hash : UInt32) (now : Time) (minUses : ℤ) (window lockTtl : Time) :
    Steady P z (Shm.resolveMiss rb z k hash now minUses window lockTtl).1 := by
  have hcount := countMissLocked rb hl hP h hash minUses window now
  obtain ⟨h₁, -⟩ := h.countMissLocked rb k hash minUses window now
  have hctn := lookup_after_count rb h k hash minUses window now
  unfold Shm.resolveMiss
  dsimp only at hctn ⊢
  cases hr : Shm.countMissLocked rb z k hash minUses window (lookup z k) now with
  | mk z₁ rc =>
    rw [hr] at hcount h₁ hctn
    cases rc with
    | declined => exact hcount
    | ok | error | again =>
      dsimp only at hctn ⊢
      rw [hctn]
      exact hcount.trans (claimLocked rb hl hP h₁ hash lockTtl now true)

theorem unstub (hP : Updates P k) (h : Wf held pending [] [] [] z) (owner : ℕ) (now : Time) :
    Steady P z (Shm.unstub rb z k owner now) := by
  unfold Shm.unstub
  split_ifs
  · exact refl P z
  · cases hf : lookup z k with
    | none => exact refl P z
    | some a =>
      obtain ⟨-, hk⟩ := h.queues.lookup_resident hf
      dsimp only
      have hclear : Steady P z (z.setNode a fun n => { n with
          refreshing := false, refreshLockUntil := 0, refreshOwner := 0 }) := update hP z hk rfl
      split_ifs
      · refine hclear.trans (trans ?_ (free _ a sizeofNode))
        exact of_mem rfl
      · exact hclear
      · exact refl P z

theorem l2NegCheck (hl : Lasting P) (hP : Updates P k) (h : Wf held pending [] [] [] z)
    (hash : UInt32) (now : Time) : Steady P z (Shm.l2NegCheck z k hash now).1 := by
  unfold Shm.l2NegCheck
  cases hf : lookup z k with
  | none => exact refl P z
  | some a =>
    obtain ⟨-, hk⟩ := h.queues.lookup_resident hf
    dsimp only
    split_ifs
    · exact touchLru hl hP z hk now 0 hash
    · exact refl P z

theorem l2NegSet (hl : Lasting P) (hP : Updates P k) (h : Wf held pending [] [] [] z)
    (hash : UInt32) (now ttl : Time) : Steady P z (Shm.l2NegSet rb z k hash now ttl) := by
  unfold Shm.l2NegSet
  cases hf : lookup z k with
  | some a =>
    obtain ⟨-, hk⟩ := h.queues.lookup_resident hf
    dsimp only
    split_ifs
    · exact refl P z
    · exact update hP z hk rfl
  | none =>
    have halloc : Steady P z (Shm.allocEvict rb z now sizeofNode).1 :=
      allocEvict rb hl z now sizeofNode
    dsimp only
    cases ha : Shm.allocEvict rb z now sizeofNode with
    | mk z₁ p =>
      rw [ha] at halloc
      cases p with
      | none => exact halloc
      | some a => exact counterAlloc rb hl hP z now ha z₁.ownerSeq rfl rfl

theorem varidxPendingSet (hP : Updates P k) (h : Wf held pending [] [] [] z) (pending : Bool) :
    Steady P z (Shm.varidxPendingSet z k pending) := by
  unfold Shm.varidxPendingSet
  cases hf : lookup z k with
  | none => exact refl P z
  | some a =>
    obtain ⟨-, hk⟩ := h.queues.lookup_resident hf
    dsimp only
    split_ifs
    · exact update hP z hk rfl
    · exact refl P z

theorem touchFound (hl : Lasting P) (hP : Updates P k) (h : Wf held pending [] [] [] z)
    (now : Time) (protectedPct : ℕ) (hash : UInt32) :
    Steady P z (Shm.touchFound z k now protectedPct hash) := by
  unfold Shm.touchFound
  cases hf : lookup z k with
  | none => exact refl P z
  | some a => exact touchLru hl hP z (h.queues.lookup_resident hf).2 now protectedPct hash

/-- A touch leaves every digest. -/
theorem touchLru_key (z : Zone) {a : Addr} (ha : (z.mem a).key = k) (now : Time)
    (protectedPct : ℕ) (hash : UInt32) :
    ((Shm.touchLru z a now protectedPct hash).mem a).key = k := by
  have hlasting : Lasting fun n => n.key = k :=
    ⟨fun _ hn => hn, fun _ _ hkey _ _ _ hn => hkey.trans hn⟩
  have hupdates : Updates (fun n => n.key = k) k :=
    ⟨fun _ _ _ hn' _ _ _ => hn', fun _ hn _ => hn⟩
  exact touchLru hlasting hupdates z ha now protectedPct hash a ha

theorem serveStale (hl : Lasting P) (hP : Updates P k) (z : Zone) {a : Addr}
    (ha : (z.mem a).key = k) (hash : UInt32) (now : Time) (q : L1Req) :
    Steady P z (Shm.serveStale z a hash now q).1 := by
  have htouch : Steady P z (Shm.touchLru z a now q.protectedPct hash) :=
    touchLru hl hP z ha now _ hash
  have hkey := touchLru_key z ha now q.protectedPct hash
  unfold Shm.serveStale
  dsimp only
  set z₁ := Shm.touchLru z a now q.protectedPct hash with hz₁
  have hpin : ((Shm.pinData z₁ (z₁.mem a).data).mem a).key = k := by
    have hlasting : Steady (fun n => n.key = k) z₁ (Shm.pinData z₁ (z₁.mem a).data) :=
      pinData z₁ _
    exact hlasting a hkey
  split_ifs
  · exact htouch.trans (pinData _ _)
  · exact htouch
  · exact htouch
  · dsimp only
    exact (htouch.trans (pinData _ _)).trans (update hP _ hpin rfl)
  · exact htouch
  · exact htouch.trans (pinData _ _)

theorem armSnapshots (z : Zone) (a : Addr) (now : Time) (q : L1Req) :
    Steady P z (Shm.armSnapshots z a now q).1 := by
  unfold Shm.armSnapshots
  split
  · exact refl P z
  next b hb =>
    dsimp only
    by_cases hlen : (z.mem a).len = 0
    · rw [if_pos hlen]
      exact refl P z
    · rw [if_neg hlen]
      set r := if q.brkArm then (blobAcquire z b, [b]) else (z, []) with hr
      have harm : Steady P z r.1 := by
        rw [hr]
        split_ifs
        · exact acquire z b
        · exact refl P z
      set read := if q.sieArm then r.1.access b else r.1 with hread
      have hseen : Steady P z read := by
        rw [hread]
        split_ifs
        · exact harm.trans (access r.1 b)
        · exact harm
      split_ifs
      · exact hseen.trans (acquire read b)
      · exact hseen

theorem accessL1 (hl : Lasting P) (hP : Updates P k) (h : Wf held pending [] [] [] z)
    (hash : UInt32) (now : Time) (q : L1Req) : Steady P z (Shm.accessL1 z k hash now q).1 := by
  unfold Shm.accessL1
  cases hf : lookup z k with
  | none => exact refl P z
  | some a =>
    obtain ⟨-, hk⟩ := h.queues.lookup_resident hf
    have hclear : Steady P z (z.setNode a fun n => { n with varidxPending := false }) :=
      update hP z hk rfl
    have hpin : ((Shm.pinData (z.setNode a fun n => { n with varidxPending := false })
        (z.mem a).data).mem a).key = k := by
      have hsame : ((z.setNode a fun n => { n with varidxPending := false }).mem a).key = k := by
        rw [setNode_mem_self]
        exact hk
      have hpinned : Steady (fun n => n.key = k) (z.setNode a fun n => { n with varidxPending := false })
          (Shm.pinData (z.setNode a fun n => { n with varidxPending := false }) (z.mem a).data) :=
        pinData _ _
      exact hpinned a hsame
    dsimp only
    split_ifs
    · exact (hclear.trans (pinData _ _)).trans (touchLru hl hP _ hpin now _ hash)
    · exact serveStale hl hP z hk hash now q
    · exact hclear.trans (armSnapshots _ a now q)

theorem purgeKey (z : Zone) (k : KeyHash) : Steady P z (Shm.purgeKey rb z k).1 := by
  unfold Shm.purgeKey
  cases lookup z k with
  | none => exact refl P z
  | some a => exact drop rb z a

theorem purgeIfBlob (z : Zone) (k : KeyHash) (stored : BlobId) :
    Steady P z (Shm.purgeIfBlob rb z k stored).1 := by
  unfold Shm.purgeIfBlob
  cases lookup z k with
  | none => exact refl P z
  | some a =>
    dsimp only
    cases (z.mem a).data with
    | none => exact refl P z
    | some b =>
      dsimp only
      split_ifs
      · exact refl P z
      · exact drop rb z a

/-- **A lasting property survives every operation** whose updates and stores it
survives. -/
theorem exec (hl : Lasting P) (h : Wf held pending [] [] [] z) (now : Time) (op : ZoneOp)
    (hupdates : ∀ k, op.key = some k → Updates P k)
    (hstores : ∀ k, op.stores = some k ∨ op.marks = some k → Stores P k) :
    Steady P z (Shm.exec rb z now op).1 := by
  cases op with
  | store k hash data freshTtl staleTtl wanted =>
    exact (storeLocked rb hl (hstores k (Or.inl rfl)) h hash now data freshTtl staleTtl
      (Or.inl rfl)).trans (pinWritten wanted _)
  | storeIf k hash data freshTtl staleTtl predicate wanted =>
    show Steady P z (Shm.storeIf rb z k hash now data freshTtl staleTtl predicate wanted).1
    unfold Shm.storeIf
    dsimp only
    split_ifs
    · exact refl P z
    · exact (storeLocked rb hl (hstores k (Or.inl rfl)) h hash now data freshTtl staleTtl
        (Or.inr rfl)).trans (pinWritten wanted _)
  | storeMarker k hash data freshTtl staleTtl =>
    exact storeMarker rb hl (hstores k (Or.inr rfl)) h hash now data freshTtl staleTtl
  | freshen k freshTtl staleTtl => exact freshen (hupdates k rfl) h now freshTtl staleTtl
  | claim k hash lockTtl => exact claimLocked rb hl (hupdates k rfl) h hash lockTtl now false
  | countMiss k hash minUses window =>
    exact countMissLocked rb hl (hupdates k rfl) h hash minUses window now
  | resolveMiss k hash minUses window lockTtl =>
    exact resolveMiss rb hl (hupdates k rfl) h hash now minUses window lockTtl
  | owns k owner => exact refl P z
  | unstub k owner => exact unstub rb (hupdates k rfl) h owner now
  | l2NegCheck k hash => exact l2NegCheck hl (hupdates k rfl) h hash now
  | l2NegSet k hash ttl => exact l2NegSet rb hl (hupdates k rfl) h hash now ttl
  | varidxPendingSet k mark => exact varidxPendingSet (hupdates k rfl) h mark
  | touchLru k protectedPct hash => exact touchFound hl (hupdates k rfl) h now protectedPct hash
  | accessL1 k hash q => exact accessL1 hl (hupdates k rfl) h hash now q
  | purgeKey k => exact purgeKey rb z k
  | purgeIfBlob k stored => exact purgeIfBlob rb z k stored
  | purgeBatch remaining => exact purgeBatch rb z remaining
  | purgeAll => exact purgeAll rb z
  | breakerWrite word => exact refl P z
  | admissionWrite on => exact refl P z

end Steady

end Shm
end CacheTurbo
