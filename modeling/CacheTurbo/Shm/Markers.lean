/-
# The marker presence counter

`markers` is written by `shm_store_marker` and by the sites that free a node, and
read by `access_l1` as a proof that no marker is resident.  `Tally leak z` says
that the counter is the number of resident MARKER nodes and `leak` more.  Every
lock-held function keeps its leak, evictions in the middle of a store included;
the one exception is a plain store over a MARKER node, which turns the node into
an entry and leaves its unit behind.

Between the unlinking of a refreshed node and its relinking the unit of that node
is part of the leak, so the nested evictions need no case of their own.
-/

import CacheTurbo.Shm.Ops
import Mathlib.Data.List.Count

namespace CacheTurbo
namespace Shm

/-- The MARKER nodes on the two queues. -/
def Zone.residentMarkers (z : Zone) : ℕ := z.resident.countP fun a => (z.mem a).kind = .marker

/-- What a node adds to the count. -/
def Node.markerUnit (n : Node) : ℕ := if n.kind = .marker then 1 else 0

/-- The presence counter exceeds the resident MARKER nodes by `leak`. -/
def Tally (leak : ℕ) (z : Zone) : Prop := z.markers = z.residentMarkers + leak

variable {held pending : List BlobId} {out loose : List Addr} {own : List BlobId} {z z' : Zone}
  {leak : ℕ}

theorem markerUnit_eq_zero {n : Node} (h : n.kind ≠ .marker) : n.markerUnit = 0 := if_neg h

theorem markerUnit_eq_one {n : Node} (h : n.kind = .marker) : n.markerUnit = 1 := if_pos h

/-- The count of a list with one node in front. -/
theorem countP_cons_unit (mem : Addr → Node) (a : Addr) (l : List Addr) :
    (a :: l).countP (fun b => (mem b).kind = .marker) =
      l.countP (fun b => (mem b).kind = .marker) + (mem a).markerUnit := by
  rw [List.countP_cons]
  simp only [decide_eq_true_eq, Node.markerUnit]

theorem residentMarkers_congr (hres : z'.resident.Perm z.resident)
    (hkind : ∀ a ∈ z.resident, (z'.mem a).kind = (z.mem a).kind) :
    z'.residentMarkers = z.residentMarkers := by
  have hcount : z'.residentMarkers = z.resident.countP fun a => (z'.mem a).kind = .marker :=
    hres.countP_eq _
  rw [hcount]
  refine List.countP_congr fun a ha => ?_
  rw [hkind a ha]

/-! ### Statements that only move or write nodes -/

theorem Tally.congr (h : Tally leak z) (hres : z'.resident.Perm z.resident)
    (hkind : ∀ a ∈ z.resident, (z'.mem a).kind = (z.mem a).kind) (hm : z'.markers = z.markers) :
    Tally leak z' := by
  unfold Tally
  rw [hm, h, residentMarkers_congr hres hkind]

/-- A step that loses no node and changes no core. -/
theorem Tally.of_kept (h : Tally leak z) (hk : Kept none z z')
    (hres : z'.resident.Perm z.resident) (hm : z'.markers = z.markers) : Tally leak z' := by
  refine h.congr hres (fun a ha => ?_) hm
  obtain ⟨-, -, hcore⟩ := (hk.nodes a (hres.mem_iff.2 ha)).resolve_left nofun
  exact congrArg Core.kind hcore

theorem Tally.of_links (h : Tally leak z) (hl : z'.links = z.links)
    (hm : z'.markers = z.markers) : Tally leak z' := by
  refine h.congr (by rw [resident_of_links hl]) (fun a _ => ?_) hm
  have hmem : z'.mem = z.mem := congrArg (fun l => l.2.2.2.2.2) hl
  rw [hmem]

/-- A node write that keeps the kind. -/
theorem Tally.setNode (h : Tally leak z) (a : Addr) {f : Node → Node}
    (hf : (f (z.mem a)).kind = (z.mem a).kind) : Tally leak (z.setNode a f) := by
  refine h.congr (List.Perm.refl _) (fun b _ => ?_) rfl
  by_cases hb : b = a
  · subst hb
    rw [setNode_mem_self, hf]
  · rw [setNode_mem_of_ne z hb]

theorem markers_freeLocked (z : Zone) (p : Addr) (size : ℕ) :
    (freeLocked z p size).markers = z.markers := by
  unfold freeLocked
  split_ifs <;> rfl

theorem markers_freeBlob (z : Zone) (b : BlobId) (bytes : ℕ) :
    (freeBlob z b bytes).markers = z.markers := markers_freeLocked z (z.blob b).addr bytes

theorem markers_releaseData (z : Zone) (data : Option BlobId) :
    (releaseData z data).markers = z.markers := by
  cases data with
  | none => rfl
  | some b =>
    show (blobNodeRelease z b).markers = _
    unfold blobNodeRelease
    dsimp only
    split_ifs
    · exact markers_freeBlob _ b _
    · rfl

theorem Tally.freeLocked (h : Tally leak z) (p : Addr) (size : ℕ) :
    Tally leak (Shm.freeLocked z p size) :=
  h.of_links (links_freeLocked z p size) (markers_freeLocked z p size)

theorem Tally.releaseData (h : Tally leak z) (data : Option BlobId) :
    Tally leak (Shm.releaseData z data) :=
  h.of_links (links_releaseData z data) (markers_releaseData z data)

/-! ### Unlinking and linking -/

/-- The unit of an unlinked node joins the leak. -/
theorem Tally.unlink (h : Tally leak z) (hq : Queues out z) {a : Addr} (ha : a ∈ z.resident) :
    Tally (leak + (z.mem a).markerUnit) (lruUnlink z a) := by
  have hres : (lruUnlink z a).resident = z.resident.erase a := hq.resident_unlink a
  have hcount : z.residentMarkers =
      (lruUnlink z a).residentMarkers + (z.mem a).markerUnit := by
    unfold Zone.residentMarkers
    rw [hres, (List.perm_cons_erase ha).countP_eq, countP_cons_unit]
    rfl
  unfold Tally at *
  show z.markers = _
  omega

theorem markers_lruLinkHead (z : Zone) (a : Addr) : (lruLinkHead z a).markers = z.markers := by
  unfold lruLinkHead
  split_ifs <;> rfl

/-- The unit of a linked node comes out of the leak. -/
theorem Tally.link {a : Addr} (h : Tally (leak + (z.mem a).markerUnit) z) :
    Tally leak (lruLinkHead z a) := by
  have hmarkers := markers_lruLinkHead z a
  have hcount : (lruLinkHead z a).residentMarkers = z.residentMarkers + (z.mem a).markerUnit := by
    unfold Zone.residentMarkers
    rw [Kept.mem_link, (Kept.resident_link z a).countP_eq, countP_cons_unit]
  unfold Tally at *
  omega

variable (rb : Rbtree)

/-- **`shm_drop_locked`**: the decrement is for exactly the dropped node, and it
never finds the counter at zero. -/
theorem Tally.drop (h : Tally leak z) (hw : Wf held pending out loose own z) {a : Addr}
    (ha : a ∈ z.resident) : Tally leak (dropLocked rb z a) := by
  set z₁ := rbtreeDelete rb
    { lruUnlink z a with nEntries := (lruUnlink z a).nEntries - 1 } a with hz₁
  have h₁ : Tally (leak + (z.mem a).markerUnit) z₁ := h.unlink hw.queues ha
  have h₂ : Tally leak (discountMarker z₁ a) := by
    unfold discountMarker
    split_ifs with hk
    · have hunit : (z.mem a).markerUnit = 1 := markerUnit_eq_one hk
      rw [hunit] at h₁
      unfold Tally at *
      show z₁.markers - 1 = z₁.residentMarkers + leak
      omega
    · have hunit : (z.mem a).markerUnit = 0 := markerUnit_eq_zero hk
      rwa [hunit] at h₁
  exact (h₂.releaseData ((discountMarker z₁ a).mem a).data).freeLocked a sizeofNode

/-! ### Evictions -/

theorem Tally.evictWalk {queue : List Addr} (h : Tally leak z)
    (hw : Wf held pending out loose own z) (isOpen : Bool) (now : Time)
    (hq : ∀ q ∈ queue, q ∈ z.resident) : Tally leak (Shm.evictWalk isOpen now queue z).1 := by
  induction queue generalizing z with
  | nil => exact h
  | cons q rest ih =>
    have hqr : q ∈ z.resident := hq q (List.mem_cons_self ..)
    simp only [Shm.evictWalk, hw.sieAccess_eq hqr]
    split_ifs
    · exact ih (h.setNode q (f := fun n => { n with sieSpared := true }) rfl)
        (hw.setNode_same q (f := fun n => { n with sieSpared := true }) rfl)
        fun p hp => hq p (List.mem_cons_of_mem _ hp)
    · exact h
    · exact h

theorem Tally.evictFrom {isOpen : Bool} {now : Time} {last : Addr} {queue : List Addr}
    (h : Tally leak z) (hw : Wf held pending out loose own z)
    (hq : ∀ q ∈ queue, q ∈ z.resident) (hlast : last ∈ z.resident) :
    Tally leak (Shm.evictFrom rb z isOpen now last queue) := by
  obtain ⟨h1, -, h3, h4, h5⟩ := hw.evictWalk isOpen now hq
  have hwalk := h.evictWalk hw isOpen now hq
  unfold Shm.evictFrom
  dsimp only
  set r := Shm.evictWalk isOpen now queue z with hr
  have hvictim : r.2.getD last ∈ r.1.resident := by
    unfold Zone.resident
    rw [h3, h4]
    cases hv : r.2 with
    | none => exact hlast
    | some q => exact hq q (h5 q hv)
  exact (hwalk.drop rb h1 hvictim).of_links rfl rfl

/-- **`shm_evict_one`** keeps the leak, whichever kind it evicts. -/
theorem Tally.evictOne (h : Tally leak z) (hw : Wf held pending out loose own z) (now : Time) :
    Tally leak (Shm.evictOne rb z now).1 := by
  have hlru : ∀ q ∈ z.lru.reverse, q ∈ z.resident := fun q hq =>
    List.mem_append_left _ (List.mem_reverse.1 hq)
  have hprot : ∀ q ∈ z.lruProtected.reverse, q ∈ z.resident := fun q hq =>
    List.mem_append_right _ (List.mem_reverse.1 hq)
  unfold Shm.evictOne
  dsimp only
  cases hl : z.lru.reverse with
  | cons last rest =>
    rw [hl] at hlru
    exact h.evictFrom rb hw hlru (hlru last (List.mem_cons_self ..))
  | nil =>
    cases hp : z.lruProtected.reverse with
    | cons last rest =>
      rw [hp] at hprot
      exact h.evictFrom rb hw hprot (hprot last (List.mem_cons_self ..))
    | nil => exact h

theorem Tally.slabAlloc (h : Tally leak z) : Tally leak (Shm.slabAlloc z).1 := by
  unfold Shm.slabAlloc
  dsimp only
  split
  · exact h.of_links rfl rfl
  · split_ifs
    · exact h.of_links rfl rfl
    · exact h.of_links rfl rfl

theorem Tally.allocLoop (h : Tally leak z) (hw : Wf held pending out loose own z) (now : Time)
    (n : ℕ) : Tally leak (Shm.allocLoop rb now n z).1 := by
  induction n generalizing z with
  | zero =>
    rw [allocLoop_zero]
    exact h.slabAlloc
  | succ n ih =>
    have hslab := h.slabAlloc
    rw [allocLoop_succ]
    cases hs : Shm.slabAlloc z with
    | mk z₁ r =>
      rw [hs] at hslab
      cases r with
      | some p => exact hslab
      | none =>
        obtain ⟨hw₁, -, -⟩ := hw.slabAlloc_none hs
        have hone := hslab.evictOne rb hw₁ now
        obtain ⟨hw₂, -⟩ := hw₁.evictOne rb now
        dsimp only
        cases he : Shm.evictOne rb z₁ now with
        | mk z₂ more =>
          rw [he] at hone hw₂
          cases more with
          | true => exact ih hone hw₂
          | false => exact hone

/-- **`shm_alloc_evict`** keeps the leak through all its evictions. -/
theorem Tally.allocEvict (h : Tally leak z) (hw : Wf held pending out loose own z) (now : Time)
    (size : ℕ) : Tally leak (Shm.allocEvict rb z now size).1 := by
  have hloop := h.allocLoop rb hw now z.resident.length
  unfold Shm.allocEvict
  cases hr : Shm.allocLoop rb now z.resident.length z with
  | mk z₁ r =>
    rw [hr] at hloop
    cases r with
    | none => exact hloop
    | some p => exact hloop.of_links rfl rfl

theorem Tally.blobAlloc (h : Tally leak z) (hw : Wf held pending out loose own z) (now : Time)
    (data : List UInt8) : Tally leak (Shm.blobAlloc rb z now data).1 := by
  have halloc := h.allocEvict rb hw now (sizeofBlobref + data.length)
  unfold Shm.blobAlloc
  cases hr : Shm.allocEvict rb z now (sizeofBlobref + data.length) with
  | mk z₁ r =>
    rw [hr] at halloc
    cases r with
    | none => exact halloc
    | some base => exact halloc.of_links rfl rfl

/-- A block in a function's hands is no queued node. -/
theorem Wf.loose_fresh {a : Addr} (h : Wf held pending out (a :: loose) own z) :
    a ∉ z.resident := by
  have hnd : (z.resident ++ out ++ a :: loose).Nodup := h.heap.nodes_nodup
  intro hc
  have hdis := List.disjoint_of_nodup_append hnd
  exact hdis (List.mem_append_left _ hc) (List.mem_cons_self ..)

/-- A new node that is no marker. -/
theorem Tally.create (h : Tally leak z) {a : Addr} (ha : a ∉ z.resident) {write : Node → Node}
    (hkind : (write (z.mem a)).kind ≠ .marker) : Tally leak (createNode rb z a write) := by
  have hself : ((createNode rb z a write).mem a).markerUnit = 0 := by
    rw [createNode_mem]
    exact markerUnit_eq_zero hkind
  have hrest : z.resident.countP (fun b => ((createNode rb z a write).mem b).kind = .marker) =
      z.residentMarkers := by
    refine List.countP_congr fun b hb => ?_
    have hne : b ≠ a := fun he => ha (he ▸ hb)
    simp [createNode, lruInsertNew, rbtreeInsert, Zone.setNode, hne]
  have hcount : (createNode rb z a write).residentMarkers = z.residentMarkers := by
    unfold Zone.residentMarkers
    rw [createNode_resident, countP_cons_unit, hself, hrest]
    rfl
  unfold Tally
  rw [hcount]
  exact h

/-! ### Stores -/

/-- The unit of the node under a digest. -/
def unitAt (z : Zone) (keyHash : KeyHash) : ℕ :=
  (view z keyHash).elim 0 fun c => if c.kind = .marker then 1 else 0

theorem unitAt_lookup {keyHash : KeyHash} {a : Addr} (hl : lookup z keyHash = some a) :
    unitAt z keyHash = (z.mem a).markerUnit := by
  unfold unitAt
  rw [view_lookup hl]
  rfl

theorem unitAt_none {keyHash : KeyHash} (hl : lookup z keyHash = none) :
    unitAt z keyHash = 0 := by
  unfold unitAt
  rw [view_none hl]
  rfl

/-- The refresh path: the unit of the node comes back when the store fails and is left
behind when it succeeds, since the node is an entry from there on. -/
theorem Tally.storeRefresh (h : Tally leak z) (hw : Wf held pending [] [] [] z) {a : Addr}
    (ha : a ∈ z.resident) (now : Time) (data : List UInt8) (freshTtl staleTtl : Time) :
    let r := Shm.storeRefresh rb z now data freshTtl staleTtl a
    (r.2 = (.error, none) ∧ Tally leak r.1) ∨
      r.2 = (.ok, some a) ∧ Tally (leak + (z.mem a).markerUnit) r.1 := by
  have hw₁ := hw.unlink ha
  have hoff : a ∉ (lruUnlink z a).resident := fun hc =>
    hw₁.queues.not_mem_out hc (List.mem_cons_self ..)
  have h₁ := (h.unlink hw.queues ha).blobAlloc rb hw₁ now data
  unfold Shm.storeRefresh
  dsimp only
  cases hr : Shm.blobAlloc rb (lruUnlink z a) now data with
  | mk z₁ r =>
    rw [hr] at h₁
    cases r with
    | none =>
      obtain ⟨-, hev⟩ := hw₁.blobAlloc_none rb hr
      have hmem : z₁.mem a = z.mem a := hev.off a hoff
      rw [← hmem] at h₁
      exact Or.inl ⟨rfl, h₁.link⟩
    | some body =>
      obtain ⟨-, hev, -⟩ := hw₁.blobAlloc rb hr
      have hlinks := links_releaseData z₁ (z₁.mem a).data
      have hres₁ : a ∉ z₁.resident := fun hc => hoff (hev.resident.subset hc)
      refine Or.inr ⟨rfl, Tally.link ?_⟩
      set z₂ := Shm.releaseData z₁ (z₁.mem a).data with hz₂
      have h₂ : Tally (leak + (z.mem a).markerUnit) z₂ := h₁.releaseData (z₁.mem a).data
      have hres₂ : a ∉ z₂.resident := by
        rw [hz₂, resident_of_links hlinks]
        exact hres₁
      -- the node is in no queue, so its new kind is counted with the link
      have hkeep : ∀ f : Node → Node, (f (z₂.mem a)).kind = .entry →
          Tally (leak + (z.mem a).markerUnit + ((z₂.setNode a f).mem a).markerUnit)
            (z₂.setNode a f) := by
        intro f hf
        have hunit : (f (z₂.mem a)).markerUnit = 0 := markerUnit_eq_zero (by simp [hf])
        rw [setNode_mem_self, hunit, Nat.add_zero]
        refine h₂.congr (List.Perm.refl _) (fun b hb => ?_) rfl
        have hne : b ≠ a := fun he => hres₂ (he ▸ hb)
        rw [setNode_mem_of_ne z₂ hne]
      exact hkeep _ rfl

theorem Tally.shmAdmit (h : Tally leak z) (hash : UInt32) :
    Tally leak (Shm.shmAdmit z hash).1 := by
  rcases shmAdmit_eq z hash with he | he <;> rw [he]
  · exact h
  · exact h.of_links rfl rfl

/-- The create path makes an entry. -/
theorem Tally.storeCreate (h : Tally leak z) (hw : Wf held pending [] [] [] z)
    (keyHash : KeyHash) (hash : UInt32) (now : Time) (data : List UInt8)
    (freshTtl staleTtl : Time) :
    Tally leak (Shm.storeCreate rb z keyHash hash now data freshTtl staleTtl).1 := by
  have hadmit := h.shmAdmit hash
  obtain ⟨hwa, -⟩ := hw.shmAdmit hash
  unfold Shm.storeCreate
  cases hr : Shm.shmAdmit z hash with
  | mk z₁ admitted =>
    rw [hr] at hadmit hwa
    cases admitted with
    | false => exact hadmit
    | true =>
      have hnode := hadmit.allocEvict rb hwa now sizeofNode
      dsimp only
      cases hn : Shm.allocEvict rb z₁ now sizeofNode with
      | mk z₂ p =>
        rw [hn] at hnode
        cases p with
        | none => exact hnode
        | some ctn =>
          obtain ⟨hw₂, -⟩ := hwa.allocNode rb hn
          have hbody := hnode.blobAlloc rb hw₂ now data
          dsimp only
          cases hb : Shm.blobAlloc rb z₂ now data with
          | mk z₃ b =>
            rw [hb] at hbody
            cases b with
            | none => exact hbody.freeLocked ctn sizeofNode
            | some body =>
              obtain ⟨hw₃, -, -⟩ := hw₂.blobAlloc rb hb
              exact hbody.create rb hw₃.loose_fresh (by simp)

/-- **`shm_store_locked`** leaves the unit of a MARKER node it overwrites behind. -/
theorem Tally.storeLocked (h : Tally leak z) (hw : Wf held pending [] [] [] z)
    (keyHash : KeyHash) (hash : UInt32) (now : Time) (data : List UInt8)
    (freshTtl staleTtl : Time) {ctn : Option Addr} (hctn : ctn = none ∨ ctn = lookup z keyHash) :
    let r := Shm.storeLocked rb z keyHash hash now data freshTtl staleTtl ctn
    Tally (leak + if r.2.1 = .ok then unitAt z keyHash else 0) r.1 := by
  have hor : ctn.or (lookup z keyHash) = lookup z keyHash := by
    rcases hctn with rfl | rfl
    · rfl
    · cases lookup z keyHash <;> rfl
  unfold Shm.storeLocked
  rw [hor]
  cases hl : lookup z keyHash with
  | none =>
    have hcreate := h.storeCreate rb hw keyHash hash now data freshTtl staleTtl
    dsimp only
    rw [unitAt_none hl, ite_self]
    exact hcreate
  | some a =>
    obtain ⟨ha, -⟩ := hw.queues.lookup_resident hl
    dsimp only
    rcases h.storeRefresh rb hw ha now data freshTtl staleTtl with ⟨hrc, ht⟩ | ⟨hrc, ht⟩
    · rw [hrc, if_neg (by simp)]
      exact ht
    · rw [hrc, if_pos rfl, unitAt_lookup hl]
      exact ht

/-- The caller's reference on the body just stored is no node. -/
theorem Tally.pinWritten (wanted : Bool) {r : Zone × Rc × Option Addr} (h : Tally leak r.1) :
    Tally leak (Shm.pinWritten wanted r).1 := by
  obtain ⟨z₁, rc, out⟩ := r
  unfold Shm.pinWritten
  split
  next z₂ written he =>
    obtain ⟨rfl, -⟩ := Prod.mk.inj he
    split_ifs
    · split
      · exact h.of_links rfl rfl
      · exact h
    · exact h
  next z₂ rc' out' _ he =>
    obtain ⟨rfl, -⟩ := Prod.mk.inj he
    exact h

theorem pinWritten_rc (wanted : Bool) (r : Zone × Rc × Option Addr) :
    (Shm.pinWritten wanted r).2.1 = r.2.1 := by
  obtain ⟨z₁, rc, out⟩ := r
  unfold Shm.pinWritten
  split
  next z₂ written he =>
    obtain ⟨-, he⟩ := Prod.mk.inj he
    obtain ⟨rfl, -⟩ := Prod.mk.inj he
    split_ifs
    · split <;> rfl
    · rfl
  next z₂ rc' out' _ he =>
    obtain ⟨-, he⟩ := Prod.mk.inj he
    obtain ⟨rfl, -⟩ := Prod.mk.inj he
    rfl

/-- **`shm_store_marker`** keeps the leak: the node is one more MARKER node, and the
counter takes one more exactly when it was none before. -/
theorem Tally.storeMarker (h : Tally leak z) (hw : Wf held pending [] [] [] z)
    (keyHash : KeyHash) (hash : UInt32) (now : Time) (data : List UInt8)
    (freshTtl staleTtl : Time) :
    Tally leak (Shm.storeMarker rb z keyHash hash now data freshTtl staleTtl).1 := by
  have hstore := h.storeLocked rb hw keyHash hash now data freshTtl staleTtl (Or.inr rfl)
  obtain ⟨hw₁, hr⟩ := hw.storeLocked rb keyHash hash now data freshTtl staleTtl (Or.inr rfl)
  have hwas : ((lookup z keyHash).any fun a => (z.mem a).kind == .marker) =
      decide (unitAt z keyHash = 1) := by
    cases hl : lookup z keyHash with
    | none => simp [unitAt_none hl]
    | some a =>
      rw [unitAt_lookup hl, Node.markerUnit]
      show ((z.mem a).kind == .marker) = _
      cases (z.mem a).kind <;> rfl
  have hunit : unitAt z keyHash = 0 ∨ unitAt z keyHash = 1 := by
    cases hl : lookup z keyHash with
    | none => exact Or.inl (unitAt_none hl)
    | some a =>
      rw [unitAt_lookup hl, Node.markerUnit]
      split_ifs
      · exact Or.inr rfl
      · exact Or.inl rfl
  unfold Shm.storeMarker
  dsimp only
  rw [hwas]
  cases hs : Shm.storeLocked rb z keyHash hash now data freshTtl staleTtl (lookup z keyHash) with
  | mk z₁ r =>
    rw [hs] at hstore hw₁ hr
    obtain ⟨rc, out⟩ := r
    dsimp only at hstore hw₁ hr
    rcases hr with ⟨hrc, rfl, -⟩ | ⟨a, b, hok, hst⟩
    · rw [if_neg hrc] at hstore
      cases rc <;> exact hstore
    · obtain ⟨rfl, rfl⟩ := Prod.mk.inj hok
      rw [if_pos rfl] at hstore
      have hentry : (z₁.mem a).kind = .entry := congrArg Core.kind hst.core
      set z₂ := z₁.setNode a fun n => { n with kind := .marker } with hz₂
      -- only the kind of the written node has changed
      have hmore : z₂.residentMarkers = z₁.residentMarkers + 1 := by
        have hsplit := List.perm_cons_erase hst.mem
        have hself : (z₂.mem a).markerUnit = 1 := by
          rw [hz₂, setNode_mem_self]
          exact markerUnit_eq_one rfl
        have hold : (z₁.mem a).markerUnit = 0 := markerUnit_eq_zero (by simp [hentry])
        have hrest : (z₁.resident.erase a).countP (fun b => (z₂.mem b).kind = .marker) =
            (z₁.resident.erase a).countP fun b => (z₁.mem b).kind = .marker := by
          refine List.countP_congr fun b hb => ?_
          have hne : b ≠ a := fun he =>
            hw₁.queues.resident_nodup.not_mem_erase (he ▸ hb)
          rw [hz₂, setNode_mem_of_ne z₁ hne]
        show z₁.resident.countP _ = z₁.resident.countP _ + 1
        rw [hsplit.countP_eq, hsplit.countP_eq, countP_cons_unit, countP_cons_unit, hself, hold,
          hrest]
      have hmarkers : z₂.markers = z₁.markers := rfl
      unfold Tally at *
      rcases hunit with hu | hu
      · rw [hu] at hstore ⊢
        show z₂.markers + 1 = z₂.residentMarkers + leak
        omega
      · rw [hu] at hstore ⊢
        show z₂.markers = z₂.residentMarkers + leak
        omega

/-! ### The other lock-held functions -/

theorem markers_lruDemote (cap fuel : ℕ) (z : Zone) :
    (lruDemote cap fuel z).markers = z.markers := by
  induction fuel generalizing z with
  | zero => rfl
  | succ fuel ih =>
    unfold lruDemote
    split_ifs
    · cases z.lruProtected.getLast? with
      | none => rfl
      | some victim =>
        dsimp only
        rw [ih, markers_lruLinkHead]
        rfl
    · rfl

theorem markers_touchLru (z : Zone) (a : Addr) (now : Time) (protectedPct : ℕ) (hash : UInt32) :
    (touchLru z a now protectedPct hash).markers = z.markers := by
  rw [touchLru_eq]
  dsimp only
  split_ifs
  · rfl
  · rw [lruEnforceCap, markers_lruDemote, markers_lruLinkHead]
    rfl
  · rw [markers_lruLinkHead]
    rfl

theorem Tally.touchLru (h : Tally leak z) (hw : Wf held pending [] [] [] z) {a : Addr}
    (ha : a ∈ z.resident) (now : Time) (protectedPct : ℕ) (hash : UInt32) :
    Tally leak (Shm.touchLru z a now protectedPct hash) := by
  obtain ⟨-, hk, hp⟩ := hw.touchLru ha now protectedPct hash
  exact h.of_kept hk hp (markers_touchLru z a now protectedPct hash)

theorem Tally.acquire (h : Tally leak z) (b : BlobId) : Tally leak (blobAcquire z b) :=
  h.of_links rfl rfl

theorem Tally.pinData (h : Tally leak z) (data : Option BlobId) :
    Tally leak (Shm.pinData z data) := by
  cases data with
  | none => exact h
  | some b => exact h.acquire b

theorem Tally.freshen (h : Tally leak z) (keyHash : KeyHash) (now freshTtl staleTtl : Time) :
    Tally leak (Shm.freshen z keyHash now freshTtl staleTtl).1 := by
  unfold Shm.freshen
  split
  · exact h
  · split_ifs
    · exact h
    all_goals exact h.setNode _ rfl

/-- A counter node is made in the free block. -/
theorem Tally.counterAlloc (h : Tally leak z) (hw : Wf held pending [] [] [] z) {now : Time}
    {a : Addr} (hr : Shm.allocEvict rb z now sizeofNode = (z', some a)) {write : Node → Node}
    (seq : ℕ) (hkind : (write (z'.mem a)).kind = .counter) :
    Tally leak (createNode rb { z' with ownerSeq := seq } a write) := by
  have halloc := h.allocEvict rb hw now sizeofNode
  obtain ⟨hw₁, -⟩ := hw.allocNode rb hr
  rw [hr] at halloc
  have hseq : Tally leak { z' with ownerSeq := seq } := halloc.of_links rfl rfl
  exact hseq.create rb (a := a) hw₁.loose_fresh (by rw [hkind]; simp)

theorem Tally.claimLocked (h : Tally leak z) (hw : Wf held pending [] [] [] z) (hash : UInt32)
    (keyHash : KeyHash) (lockTtl : Time) (ctn : Option Addr) (now : Time) (pin : Bool) :
    Tally leak (Shm.claimLocked rb z hash keyHash lockTtl ctn now pin).1 := by
  unfold Shm.claimLocked
  cases ctn with
  | some a =>
    dsimp only
    split_ifs
    · exact h.pinData _
    · exact h
    · exact h
    · have hseq : Tally leak { z with ownerSeq := z.ownerSeq + 1 } := h.of_links rfl rfl
      exact hseq.setNode a rfl
  | none =>
    dsimp only
    cases hr : Shm.allocEvict rb z now sizeofNode with
    | mk z₁ p =>
      cases p with
      | none =>
        have halloc := h.allocEvict rb hw now sizeofNode
        rwa [hr] at halloc
      | some a => exact h.counterAlloc rb hw hr _ rfl

theorem Tally.countMissLocked (h : Tally leak z) (hw : Wf held pending [] [] [] z)
    (keyHash : KeyHash) (hash : UInt32) (minUses : ℤ) (window : Time) (ctn : Option Addr)
    (now : Time) :
    Tally leak (Shm.countMissLocked rb z keyHash hash minUses window ctn now).1 := by
  unfold Shm.countMissLocked
  cases ctn with
  | some a =>
    dsimp only
    split_ifs
    · exact h
    · exact h
    all_goals exact h.setNode a rfl
  | none =>
    dsimp only
    cases hr : Shm.allocEvict rb z now sizeofNode with
    | mk z₁ p =>
      cases p with
      | none =>
        have halloc := h.allocEvict rb hw now sizeofNode
        rwa [hr] at halloc
      | some a => exact h.counterAlloc rb hw hr z₁.ownerSeq rfl

theorem Tally.resolveMiss (h : Tally leak z) (hw : Wf held pending [] [] [] z)
    (keyHash : KeyHash) (hash : UInt32) (now : Time) (minUses : ℤ) (window lockTtl : Time) :
    Tally leak (Shm.resolveMiss rb z keyHash hash now minUses window lockTtl).1 := by
  have hcount := h.countMissLocked rb hw keyHash hash minUses window (lookup z keyHash) now
  obtain ⟨hw₁, -⟩ := hw.countMissLocked rb keyHash hash minUses window now
  unfold Shm.resolveMiss
  dsimp only
  cases hr : Shm.countMissLocked rb z keyHash hash minUses window (lookup z keyHash) now with
  | mk z₁ rc =>
    rw [hr] at hcount hw₁
    cases rc with
    | declined => exact hcount
    | ok | error | again => exact hcount.claimLocked rb hw₁ hash keyHash lockTtl _ now true

/-- **`shm_unstub`** frees nothing but a counter. -/
theorem Tally.unstub (h : Tally leak z) (hw : Wf held pending [] [] [] z) (keyHash : KeyHash)
    (owner : ℕ) (now : Time) : Tally leak (Shm.unstub rb z keyHash owner now) := by
  unfold Shm.unstub
  split_ifs
  · exact h
  · cases hl : lookup z keyHash with
    | none => exact h
    | some a =>
      obtain ⟨ha, -⟩ := hw.queues.lookup_resident hl
      dsimp only
      split_ifs with hheld hgone
      · set clear : Node → Node := fun n =>
          { n with refreshing := false, refreshLockUntil := 0, refreshOwner := 0 } with hclear
        have h₁ : Tally leak (z.setNode a clear) := h.setNode a rfl
        have hw₁ : Wf held pending [] [] [] (z.setNode a clear) := hw.setNode_same a rfl
        have hunit : ((z.setNode a clear).mem a).markerUnit = 0 := by
          rw [setNode_mem_self]
          refine markerUnit_eq_zero ?_
          show (z.mem a).kind ≠ .marker
          rw [hgone.1]
          simp
        have h₂ := h₁.unlink hw₁.queues ha
        rw [hunit] at h₂
        have h₃ : Tally leak (rbtreeDelete rb { lruUnlink (z.setNode a clear) a with
            nEntries := (lruUnlink (z.setNode a clear) a).nEntries - 1 } a) := h₂
        exact h₃.freeLocked a sizeofNode
      · exact h.setNode a rfl
      · exact h

theorem Tally.l2NegCheck (h : Tally leak z) (hw : Wf held pending [] [] [] z) (keyHash : KeyHash)
    (hash : UInt32) (now : Time) : Tally leak (Shm.l2NegCheck z keyHash hash now).1 := by
  unfold Shm.l2NegCheck
  cases hl : lookup z keyHash with
  | none => exact h
  | some a =>
    obtain ⟨ha, -⟩ := hw.queues.lookup_resident hl
    dsimp only
    split_ifs
    · exact h.touchLru hw ha now 0 hash
    · exact h

theorem Tally.varidxPendingSet (h : Tally leak z) (keyHash : KeyHash) (mark : Bool) :
    Tally leak (Shm.varidxPendingSet z keyHash mark) := by
  unfold Shm.varidxPendingSet
  split
  · exact h
  · split_ifs
    · exact h.setNode _ rfl
    · exact h

theorem Tally.l2NegSet (h : Tally leak z) (hw : Wf held pending [] [] [] z) (keyHash : KeyHash)
    (hash : UInt32) (now ttl : Time) : Tally leak (Shm.l2NegSet rb z keyHash hash now ttl) := by
  unfold Shm.l2NegSet
  cases lookup z keyHash with
  | some a =>
    dsimp only
    split_ifs
    · exact h
    · exact h.setNode a rfl
  | none =>
    dsimp only
    cases hr : Shm.allocEvict rb z now sizeofNode with
    | mk z₁ p =>
      cases p with
      | none =>
        have halloc := h.allocEvict rb hw now sizeofNode
        rwa [hr] at halloc
      | some a => exact h.counterAlloc rb hw hr z₁.ownerSeq rfl

theorem Tally.touchFound (h : Tally leak z) (hw : Wf held pending [] [] [] z) (keyHash : KeyHash)
    (now : Time) (protectedPct : ℕ) (hash : UInt32) :
    Tally leak (Shm.touchFound z keyHash now protectedPct hash) := by
  unfold Shm.touchFound
  cases hl : lookup z keyHash with
  | none => exact h
  | some a =>
    obtain ⟨ha, -⟩ := hw.queues.lookup_resident hl
    exact h.touchLru hw ha now protectedPct hash

theorem Tally.serveStale (h : Tally leak z) (hw : Wf held pending [] [] [] z) {a : Addr}
    (ha : a ∈ z.resident) (hash : UInt32) (now : Time) (q : L1Req) :
    Tally leak (Shm.serveStale z a hash now q).1 := by
  have htouch := h.touchLru hw ha now q.protectedPct hash
  unfold Shm.serveStale
  dsimp only
  split_ifs
  · exact htouch.pinData _
  · exact htouch
  · exact htouch
  · exact (htouch.pinData _).setNode a rfl
  · exact htouch
  · exact htouch.pinData _

theorem Tally.armSnapshots (h : Tally leak z) (a : Addr) (now : Time) (q : L1Req) :
    Tally leak (Shm.armSnapshots z a now q).1 := by
  unfold Shm.armSnapshots
  split
  next => exact h
  next b _ =>
    by_cases hlen : (z.mem a).len = 0
    · rw [if_pos hlen]
      exact h
    · rw [if_neg hlen]
      dsimp only
      set r := (if q.brkArm then (blobAcquire z b, [b]) else (z, [])) with hr
      have hbrk : Tally leak r.1 := by
        rw [hr]
        split_ifs
        · exact h.acquire b
        · exact h
      set read := (if q.sieArm then r.1.access b else r.1) with hread
      have hsie : Tally leak read := by
        rw [hread]
        split_ifs
        · exact hbrk.of_links rfl rfl
        · exact hbrk
      split_ifs
      · exact hsie.acquire b
      · exact hsie

theorem Tally.accessL1 (h : Tally leak z) (hw : Wf held pending [] [] [] z) (keyHash : KeyHash)
    (hash : UInt32) (now : Time) (q : L1Req) :
    Tally leak (Shm.accessL1 z keyHash hash now q).1 := by
  unfold Shm.accessL1
  cases hl : lookup z keyHash with
  | none => exact h
  | some a =>
    obtain ⟨ha, -⟩ := hw.queues.lookup_resident hl
    dsimp only
    set mark : Node → Node := fun n => { n with varidxPending := false } with hmark
    have h₁ : Tally leak (z.setNode a mark) := h.setNode a rfl
    have hw₁ : Wf held pending [] [] [] (z.setNode a mark) := hw.setNode_same a rfl
    split_ifs
    · have hdata : ((z.setNode a mark).mem a).data = (z.mem a).data := by rw [setNode_mem_self]
      have hw₂ := hw₁.pinData (a := a) ha
      rw [hdata] at hw₂
      refine (h₁.pinData (z.mem a).data).touchLru hw₂ ?_ now q.protectedPct hash
      rw [pinData_resident]
      exact ha
    · exact h.serveStale hw ha hash now q
    · exact h₁.armSnapshots a now q

/-! ### Purging -/

theorem Tally.purgeKey (h : Tally leak z) (hw : Wf held pending [] [] [] z) (keyHash : KeyHash) :
    Tally leak (Shm.purgeKey rb z keyHash).1 := by
  unfold Shm.purgeKey
  cases hl : lookup z keyHash with
  | none => exact h
  | some a => exact h.drop rb hw (hw.queues.lookup_resident hl).1

theorem Tally.purgeIfBlob (h : Tally leak z) (hw : Wf held pending [] [] [] z)
    (keyHash : KeyHash) (stored : BlobId) :
    Tally leak (Shm.purgeIfBlob rb z keyHash stored).1 := by
  unfold Shm.purgeIfBlob
  cases hl : lookup z keyHash with
  | none => exact h
  | some a =>
    dsimp only
    split
    · exact h
    · split_ifs
      · exact h
      · exact h.drop rb hw (hw.queues.lookup_resident hl).1

theorem Tally.dropHeads (h : Tally leak z) (hw : Wf held pending [] [] [] z)
    (queue : Zone → List Addr) (hqueue : ∀ z, ∀ a ∈ queue z, a ∈ z.resident) (limit : ℕ) :
    Tally leak (Shm.dropHeads rb queue limit z).1 := by
  induction limit generalizing z with
  | zero => exact h
  | succ limit ih =>
    unfold Shm.dropHeads
    split
    next => exact h
    next head rest hq =>
      have ha : head ∈ z.resident := hqueue z head (hq ▸ List.mem_cons_self ..)
      exact ih (h.drop rb hw ha) (hw.drop rb ha)

theorem Tally.purgeBatch (h : Tally leak z) (hw : Wf held pending [] [] [] z) (remaining : ℕ) :
    Tally leak (Shm.purgeBatch rb z remaining).1 := by
  have hlru : ∀ z : Zone, ∀ a ∈ z.lru, a ∈ z.resident := fun _ _ ha => List.mem_append_left _ ha
  obtain ⟨hw₁, -⟩ := hw.dropHeads rb Zone.lru hlru (min purgeBatchMax remaining)
  have h₁ := h.dropHeads rb hw Zone.lru hlru (min purgeBatchMax remaining)
  exact h₁.dropHeads rb hw₁ Zone.lruProtected (fun _ _ ha => List.mem_append_right _ ha) _

theorem Tally.purgeLoop (h : Tally leak z) (hw : Wf held pending [] [] [] z)
    (fuel remaining purged : ℕ) : Tally leak (Shm.purgeLoop rb fuel z remaining purged).1 := by
  induction fuel generalizing z remaining purged with
  | zero => exact h
  | succ fuel ih =>
    obtain ⟨hw₁, -⟩ := hw.purgeBatch rb remaining
    have h₁ := h.purgeBatch rb hw remaining
    unfold Shm.purgeLoop
    dsimp only
    split_ifs
    · exact h
    · exact h₁
    · exact h₁
    · exact ih h₁ hw₁ _ _

theorem Tally.purgeAll (h : Tally leak z) (hw : Wf held pending [] [] [] z) :
    Tally leak (Shm.purgeAll rb z).1 := by
  unfold Shm.purgeAll
  split_ifs
  · exact h
  · exact h.purgeLoop rb hw _ _ _

/-! ### One operation -/

/-- The digest a plain store writes an entry under. -/
def ZoneOp.stores : ZoneOp → Option KeyHash
  | .store k .. | .storeIf k .. => some k
  | _ => none

/-- The digest a marker store writes a MARKER node under. -/
def ZoneOp.marks : ZoneOp → Option KeyHash
  | .storeMarker k .. => some k
  | _ => none

/-- The plain store hits a MARKER node. -/
def Overwrites (z : Zone) (op : ZoneOp) : Prop :=
  ∃ k c, op.stores = some k ∧ view z k = some c ∧ c.kind = .marker

theorem overwrites_of_unit {op : ZoneOp} {k : KeyHash} (hk : op.stores = some k) {p : Prop}
    [Decidable p] (h : (if p then unitAt z k else 0) ≠ 0) : Overwrites z op := by
  have hunit : unitAt z k ≠ 0 := fun he => h (by rw [he, ite_self])
  unfold unitAt at hunit
  cases hv : view z k with
  | none =>
    rw [hv] at hunit
    exact absurd rfl hunit
  | some c =>
    rw [hv] at hunit
    refine ⟨k, c, hk, hv, ?_⟩
    by_contra hc
    exact hunit (if_neg hc)

/-- **Every operation keeps the leak, or adds to it by overwriting a MARKER node.** -/
theorem Tally.exec (h : Tally leak z) (hw : Wf held pending [] [] [] z) (now : Time)
    (op : ZoneOp) :
    ∃ extra, Tally (leak + extra) (Shm.exec rb z now op).1 ∧ (extra ≠ 0 → Overwrites z op) := by
  cases op with
  | store k hash data freshTtl staleTtl wanted =>
    have hs := h.storeLocked rb hw k hash now data freshTtl staleTtl (Or.inl rfl)
    exact ⟨_, hs.pinWritten wanted, overwrites_of_unit rfl⟩
  | storeIf k hash data freshTtl staleTtl predicate wanted =>
    have hs := h.storeLocked rb hw k hash now data freshTtl staleTtl (Or.inr rfl)
    show ∃ extra, Tally (leak + extra)
      (Shm.storeIf rb z k hash now data freshTtl staleTtl predicate wanted).1 ∧ _
    unfold Shm.storeIf
    dsimp only
    split_ifs
    · exact ⟨0, h, fun hne => absurd rfl hne⟩
    · exact ⟨_, hs.pinWritten wanted, overwrites_of_unit rfl⟩
  | storeMarker k hash data freshTtl staleTtl =>
    exact ⟨0, h.storeMarker rb hw k hash now data freshTtl staleTtl, fun hne => absurd rfl hne⟩
  | freshen k freshTtl staleTtl =>
    exact ⟨0, h.freshen k now freshTtl staleTtl, fun hne => absurd rfl hne⟩
  | claim k hash lockTtl =>
    exact ⟨0, h.claimLocked rb hw hash k lockTtl _ now false, fun hne => absurd rfl hne⟩
  | countMiss k hash minUses window =>
    exact ⟨0, h.countMissLocked rb hw k hash minUses window _ now, fun hne => absurd rfl hne⟩
  | resolveMiss k hash minUses window lockTtl =>
    exact ⟨0, h.resolveMiss rb hw k hash now minUses window lockTtl, fun hne => absurd rfl hne⟩
  | owns k owner => exact ⟨0, h, fun hne => absurd rfl hne⟩
  | unstub k owner => exact ⟨0, h.unstub rb hw k owner now, fun hne => absurd rfl hne⟩
  | l2NegCheck k hash => exact ⟨0, h.l2NegCheck hw k hash now, fun hne => absurd rfl hne⟩
  | l2NegSet k hash ttl => exact ⟨0, h.l2NegSet rb hw k hash now ttl, fun hne => absurd rfl hne⟩
  | varidxPendingSet k mark => exact ⟨0, h.varidxPendingSet k mark, fun hne => absurd rfl hne⟩
  | touchLru k protectedPct hash =>
    exact ⟨0, h.touchFound hw k now protectedPct hash, fun hne => absurd rfl hne⟩
  | accessL1 k hash q => exact ⟨0, h.accessL1 hw k hash now q, fun hne => absurd rfl hne⟩
  | purgeKey k => exact ⟨0, h.purgeKey rb hw k, fun hne => absurd rfl hne⟩
  | purgeIfBlob k stored => exact ⟨0, h.purgeIfBlob rb hw k stored, fun hne => absurd rfl hne⟩
  | purgeBatch remaining => exact ⟨0, h.purgeBatch rb hw remaining, fun hne => absurd rfl hne⟩
  | purgeAll => exact ⟨0, h.purgeAll rb hw, fun hne => absurd rfl hne⟩
  | breakerWrite word => exact ⟨0, h.of_links rfl rfl, fun hne => absurd rfl hne⟩
  | admissionWrite on => exact ⟨0, h.of_links rfl rfl, fun hne => absurd rfl hne⟩

/-- Where the kind of a core comes from: the core before the operation, a new counter,
or a store of that kind under this digest. -/
inductive KindFrom (z : Zone) (op : ZoneOp) (k : KeyHash) (kind : NodeKind) : Prop
  | kept (c : Core) (hc : view z k = some c) (hk : c.kind = kind)
  | counter (hk : kind = .counter)
  | entry (hk : kind = .entry) (hs : op.stores = some k)
  | marker (hk : kind = .marker) (hm : op.marks = some k)

theorem KindFrom.of_survives {op : ZoneOp} {k : KeyHash} {c : Core} (h : Survives z z' k)
    (hv : view z' k = some c) : KindFrom z op k c.kind := by
  rcases h with hn | he
  · rw [hn] at hv
    cases hv
  · exact .kept c (he ▸ hv) rfl

theorem KindFrom.of_eq {op : ZoneOp} {k : KeyHash} {c : Core} (h : view z' k = view z k)
    (hv : view z' k = some c) : KindFrom z op k c.kind := .of_survives (Or.inr h) hv

/-- A write to the core that keeps its kind. -/
theorem KindFrom.of_write {op : ZoneOp} {k : KeyHash} {c c₀ c₁ : Core} (hv₀ : view z k = some c₀)
    (hv₁ : view z' k = some c₁) (hk : c₁.kind = c₀.kind) (hv : view z' k = some c) :
    KindFrom z op k c.kind := by
  rw [hv₁] at hv
  obtain rfl := Option.some.inj hv
  exact .kept c₀ hv₀ hk.symm

theorem KindFrom.of_counter {op : ZoneOp} {k : KeyHash} {c c₁ : Core}
    (hv₁ : view z' k = some c₁) (hk : c₁.kind = .counter) (hv : view z' k = some c) :
    KindFrom z op k c.kind := by
  rw [hv₁] at hv
  obtain rfl := Option.some.inj hv
  exact .counter hk

theorem StoreEffect.kindFrom {op : ZoneOp} {k : KeyHash} {now freshTtl staleTtl : Time}
    {data : List UInt8} {kind : NodeKind} {rc : Rc} {pin : Option BlobId} {c : Core}
    (h : StoreEffect z k now data freshTtl staleTtl kind z' rc pin) (hv : view z' k = some c)
    (hnew : KindFrom z op k kind) : KindFrom z op k c.kind := by
  rcases h with ⟨-, -, hs⟩ | ⟨-, b, -, -, hb⟩
  · exact .of_survives hs hv
  · rw [hb] at hv
    obtain rfl := Option.some.inj hv
    exact hnew

theorem CountEffect.kindFrom {op : ZoneOp} {k : KeyHash} {now : Time} {minUses : ℤ} {rc : Rc}
    {c : Core} (h : CountEffect z k now minUses z' rc) (hv : view z' k = some c) :
    KindFrom z op k c.kind := by
  rcases h with ⟨rfl, -, -⟩ | ⟨c₀, m, hv₀, -, -, hv₁, -⟩ | ⟨-, -, hn⟩ | ⟨-, -, hv₁⟩
  · exact .kept c hv rfl
  · exact .of_write hv₀ hv₁ rfl hv
  · rw [hn] at hv
    cases hv
  · exact .of_counter hv₁ rfl hv

theorem ClaimEffect.kindFrom {op : ZoneOp} {k : KeyHash} {now lockTtl : Time}
    {answer : ClaimAnswer} {c : Core} (h : ClaimEffect z k now lockTtl z' answer)
    (hv : view z' k = some c) : KindFrom z op k c.kind := by
  unfold ClaimEffect at h
  split at h
  · exact .of_eq (congrFun h.2.1 k) hv
  · obtain ⟨-, rfl, -⟩ := h
    exact .kept c hv rfl
  · rcases h with ⟨-, -, hn⟩ | ⟨-, -, -, hv₁⟩
    · rw [hn] at hv
      cases hv
    · cases hv₀ : view z k with
      | none =>
        rw [hv₀] at hv₁
        exact .of_counter hv₁ rfl hv
      | some c₀ =>
        rw [hv₀] at hv₁
        exact .of_write hv₀ hv₁ rfl hv

theorem ResolveEffect.kindFrom {op : ZoneOp} {k : KeyHash} {now lockTtl : Time} {minUses : ℤ}
    {rc : Rc} {answer : ClaimAnswer} {c : Core}
    (h : ResolveEffect z k now minUses lockTtl z' rc answer) (hv : view z' k = some c) :
    KindFrom z op k c.kind := by
  obtain ⟨z₁, hcount, -, ⟨-, rfl, -⟩ | ⟨-, hclaim⟩⟩ := h
  · exact hcount.kindFrom hv
  · -- the claim keeps the kind the count left, or makes a counter
    have hmid : KindFrom z₁ op k c.kind := hclaim.kindFrom hv
    cases hmid with
    | kept c₁ hv₁ hk =>
      rw [← hk]
      exact hcount.kindFrom hv₁
    | counter hk => exact .counter hk
    | entry hk hs => exact .entry hk hs
    | marker hk hm => exact .marker hk hm

/-- **Where the kinds after an operation come from.** -/
theorem exec_kindFrom (h : Wf held pending [] [] [] z) (now : Time) (op : ZoneOp) {k : KeyHash}
    {c : Core} (hv : view (exec rb z now op).1 k = some c) : KindFrom z op k c.kind := by
  by_cases hk : op.key = some k
  swap
  · exact .of_survives ((h.exec rb now op).2.other k hk) hv
  cases op with
  | store k' hash data freshTtl staleTtl wanted =>
    obtain rfl := Option.some.inj hk
    obtain ⟨-, -, heff⟩ := h.store rb k' hash now data freshTtl staleTtl wanted
    exact heff.kindFrom hv (.entry rfl rfl)
  | storeIf k' hash data freshTtl staleTtl predicate wanted =>
    obtain rfl := Option.some.inj hk
    obtain ⟨-, -, heff⟩ := h.storeIf rb k' hash now data freshTtl staleTtl predicate wanted
    exact heff.kindFrom hv (.entry rfl rfl)
  | storeMarker k' hash data freshTtl staleTtl =>
    obtain rfl := Option.some.inj hk
    obtain ⟨-, -, heff⟩ := h.storeMarker rb k' hash now data freshTtl staleTtl
    exact heff.kindFrom hv (.marker rfl rfl)
  | freshen k' freshTtl staleTtl =>
    obtain rfl := Option.some.inj hk
    obtain ⟨-, -, ⟨-, he⟩ | ⟨-, c₀, hv₀, -, hv₁⟩⟩ := h.freshen k' now freshTtl staleTtl
    · exact .of_eq (congrArg (fun z => view z k') he) hv
    · exact .of_write hv₀ hv₁ rfl hv
  | claim k' hash lockTtl =>
    obtain rfl := Option.some.inj hk
    obtain ⟨-, -, heff⟩ := h.claim rb k' hash now lockTtl
    exact heff.kindFrom hv
  | countMiss k' hash minUses window =>
    obtain rfl := Option.some.inj hk
    obtain ⟨-, -, heff⟩ := h.countMiss rb k' hash now minUses window
    exact heff.kindFrom hv
  | resolveMiss k' hash minUses window lockTtl =>
    obtain rfl := Option.some.inj hk
    obtain ⟨-, -, heff⟩ := h.resolveMiss rb k' hash now minUses window lockTtl
    exact heff.kindFrom hv
  | owns k' owner => exact .kept c hv rfl
  | unstub k' owner =>
    obtain rfl := Option.some.inj hk
    obtain ⟨-, -, ⟨he, -⟩ | ⟨c₀, hv₀, -, -, -, -, hv₁ | ⟨-, -, -, hn⟩⟩⟩ := h.unstub rb k' owner now
    · exact .of_eq (congrArg (fun z => view z k') he) hv
    · exact .of_write hv₀ hv₁ rfl hv
    · rw [show view (exec rb z now (.unstub k' owner)).1 k' = none from hn] at hv
      cases hv
  | l2NegCheck k' hash =>
    obtain ⟨h₁, hkept, -⟩ := h.l2NegCheck k' hash now
    exact .of_survives (hkept.survives h.queues h₁.queues k) hv
  | l2NegSet k' hash ttl =>
    obtain rfl := Option.some.inj hk
    obtain ⟨-, -, ⟨he, -⟩ | ⟨c₀, hv₀, -, hv₁⟩ | ⟨-, hn | hv₁⟩⟩ := h.l2NegSet rb k' hash now ttl
    · exact .of_eq (congrArg (fun z => view z k') he) hv
    · exact .of_write hv₀ hv₁ rfl hv
    · rw [show view (exec rb z now (.l2NegSet k' hash ttl)).1 k' = none from hn] at hv
      cases hv
    · exact .of_counter hv₁ rfl hv
  | varidxPendingSet k' mark =>
    obtain ⟨h₁, hkept, -⟩ := h.varidxPendingSet k' mark
    exact .of_survives (hkept.survives h.queues h₁.queues k) hv
  | touchLru k' protectedPct hash =>
    obtain ⟨h₁, hkept, -⟩ := h.touchFound k' now protectedPct hash
    exact .of_survives (hkept.survives h.queues h₁.queues k) hv
  | accessL1 k' hash q =>
    obtain rfl := Option.some.inj hk
    obtain ⟨-, -, heff⟩ := h.accessL1 k' hash now q
    unfold L1Effect at heff
    split at heff
    · obtain ⟨c₀, hv₀, -, -, hv₁⟩ := heff
      exact .of_write hv₀ hv₁ rfl hv
    · exact .of_eq (congrFun heff k') hv
  | purgeKey k' =>
    obtain ⟨h₁, hkept, -⟩ := h.purgeKey rb k'
    exact .of_survives (hkept.survives h.queues h₁.queues k) hv
  | purgeIfBlob k' stored =>
    obtain ⟨h₁, hkept, -⟩ := h.purgeIfBlob rb k' stored
    exact .of_survives (hkept.survives h.queues h₁.queues k) hv
  | purgeBatch remaining => cases hk
  | purgeAll => cases hk
  | breakerWrite word => cases hk
  | admissionWrite on => cases hk

/-! ### Runs -/

/-- The marker keys `M` and the content keys are apart: markers are stored under the
first only, and plain stores never go there. -/
def Apart (M : KeyHash → Prop) (op : ZoneOp) : Prop :=
  (∀ k, op.marks = some k → M k) ∧ ∀ k, op.stores = some k → ¬ M k

/-- MARKER nodes are under marker keys and entries are not. -/
def KindsApart (M : KeyHash → Prop) (z : Zone) : Prop :=
  ∀ k c, view z k = some c → (c.kind = .marker → M k) ∧ (c.kind = .entry → ¬ M k)

theorem KindsApart.exec {M : KeyHash → Prop} (h : KindsApart M z) (hw : Wf held pending [] [] [] z)
    (now : Time) {op : ZoneOp} (hop : Apart M op) : KindsApart M (Shm.exec rb z now op).1 := by
  intro k c hv
  cases exec_kindFrom rb hw now op hv with
  | kept c₀ hv₀ hk =>
    rw [← hk]
    exact h k c₀ hv₀
  | counter hk => rw [hk]; simp
  | entry hk hs => rw [hk]; simpa using hop.2 k hs
  | marker hk hm => rw [hk]; simpa using hop.1 k hm

theorem KindsApart.not_overwrites {M : KeyHash → Prop} (h : KindsApart M z) {op : ZoneOp}
    (hop : Apart M op) : ¬ Overwrites z op := by
  rintro ⟨k, c, hs, hv, hk⟩
  exact hop.2 k hs ((h k c hv).1 hk)

theorem Tally.freshZone (mem : Addr → Node) (blob : BlobId → Blob) (answers : ℕ → Option Addr)
    (sketch : Sketch) (admission : Bool) (breakerState : ℕ) :
    Tally 0 (Shm.freshZone mem blob answers sketch admission breakerState) := rfl

/-- **The counter never falls short**: along any run it is the number of resident MARKER
nodes and some leak. -/
theorem tally_run (mem : Addr → Node) (blob : BlobId → Blob) (answers : ℕ → Option Addr)
    (sketch : Sketch) (admission : Bool) (breakerState : ℕ) (run : List (Time × ZoneOp)) :
    ∃ leak, Tally leak (Run.after (runStep rb)
      (freshZone mem blob answers sketch admission breakerState) run) := by
  have hinv : ∃ held leak, Wf held [] [] [] [] (Run.after (runStep rb)
      (freshZone mem blob answers sketch admission breakerState) run) ∧
      Tally leak (Run.after (runStep rb)
        (freshZone mem blob answers sketch admission breakerState) run) := by
    refine Run.after_invariant
      (P := fun z => ∃ held leak, Wf held [] [] [] [] z ∧ Tally leak z) ?_
      ⟨[], 0, ?_, Tally.freshZone mem blob answers sketch admission breakerState⟩ run
    · rintro z ⟨now, op⟩ ⟨held, leak, hw, h⟩
      obtain ⟨extra, h', -⟩ := h.exec rb hw now op
      exact ⟨_, _, (hw.exec rb now op).1, h'⟩
    · exact Wf.freshZone mem blob answers sketch admission breakerState
  obtain ⟨-, leak, -, h⟩ := hinv
  exact ⟨leak, h⟩

/-- **The counter is exact** along a run that keeps marker keys and content keys apart. -/
theorem tally_run_apart {M : KeyHash → Prop} (mem : Addr → Node) (blob : BlobId → Blob)
    (answers : ℕ → Option Addr) (sketch : Sketch) (admission : Bool) (breakerState : ℕ)
    {run : List (Time × ZoneOp)} (hrun : ∀ e ∈ run, Apart M e.2) :
    let z := Run.after (runStep rb) (freshZone mem blob answers sketch admission breakerState) run
    Tally 0 z ∧ KindsApart M z ∧ Queues [] z := by
  have hinv : ∃ held, Wf held [] [] [] [] (Run.after (runStep rb)
      (freshZone mem blob answers sketch admission breakerState) run) ∧
      Tally 0 (Run.after (runStep rb)
        (freshZone mem blob answers sketch admission breakerState) run) ∧
      KindsApart M (Run.after (runStep rb)
        (freshZone mem blob answers sketch admission breakerState) run) := by
    refine Run.after_of_along (C := fun _ e => Apart M e.2)
      (P := fun z => ∃ held, Wf held [] [] [] [] z ∧ Tally 0 z ∧ KindsApart M z) ?_
      ⟨[], ?_, Tally.freshZone mem blob answers sketch admission breakerState, fun k c hv => ?_⟩
      (Run.along_of_forall hrun)
    · rintro z ⟨now, op⟩ ⟨held, hw, h, hk⟩ hop
      obtain ⟨extra, h', hover⟩ := h.exec rb hw now op
      have hzero : extra = 0 := by
        by_contra hne
        exact hk.not_overwrites hop (hover hne)
      subst hzero
      exact ⟨_, (hw.exec rb now op).1, h', hk.exec rb hw now hop⟩
    · exact Wf.freshZone mem blob answers sketch admission breakerState
    · cases hv
  obtain ⟨held, hw, h, hk⟩ := hinv
  exact ⟨h, hk, hw.queues⟩

end Shm
end CacheTurbo
