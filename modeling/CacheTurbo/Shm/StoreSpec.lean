/-
# What touching, storing, freshening and purging do

One theorem for each lock-held function of `Store.lean`, and for
`shm_touch_lru`: the zone invariant afterwards, the references handed out, and
the frame with the core of the node the function worked on.  The later modules
use these and never unfold the functions.
-/

import CacheTurbo.Shm.View

namespace CacheTurbo
namespace Shm

variable {held pending : List BlobId} {z : Zone}

theorem setNode_mem_self (z : Zone) (a : Addr) (f : Node → Node) :
    (z.setNode a f).mem a = f (z.mem a) := by simp [Zone.setNode]

theorem setNode_mem_of_ne (z : Zone) {a b : Addr} (hb : b ≠ a) (f : Node → Node) :
    (z.setNode a f).mem b = z.mem b := by simp [Zone.setNode, hb]

theorem setNode_setNode (z : Zone) (a : Addr) (f g : Node → Node) :
    (z.setNode a f).setNode a g = z.setNode a fun n => g (f n) := by
  simp [Zone.setNode]

/-! ### Moves within the queues -/

/-- A node that is relinked under a segment its kind allows. -/
theorem Wf.relink (h : Wf held pending [] [] [] z) {a : Addr} (ha : a ∈ z.resident)
    {f : Node → Node} (hkey : (f (z.mem a)).key = (z.mem a).key)
    (hcore : (f (z.mem a)).core = (z.mem a).core) (hok : NodeOk (f (z.mem a))) :
    let z' := lruLinkHead ((lruUnlink z a).setNode a f) a
    Wf held pending [] [] [] z' ∧ Kept none z z' ∧ z'.resident.Perm z.resident := by
  set z₂ := (lruUnlink z a).setNode a f with hz₂
  have hmem : z₂.mem a = f (z.mem a) := setNode_mem_self _ a f
  have hdata : (z₂.mem a).data = (z.mem a).data := by
    rw [hmem]
    exact congrArg Core.data hcore
  have h2 : Wf held pending [a] [] ((z.mem a).data.toList ++ []) z₂ :=
    (h.unlink ha).setNode_out (List.mem_cons_self ..) hkey
  rw [← hdata] at h2
  refine ⟨h2.link (by rw [hmem]; exact hok), ?_, ?_⟩
  · have hkept : Kept (some a) z (lruLinkHead z₂ a) :=
      ((Kept.unlink z a).mono.trans (Kept.setNode _ a f)).trans (Kept.link z₂ a)
    refine hkept.drop ha ?_ ?_
    · rw [Kept.mem_link, hmem, hkey]
    · rw [Kept.mem_link, hmem, hcore]
  · have hres : z₂.resident = z.resident.erase a := h.queues.resident_unlink a
    refine (Kept.resident_link z₂ a).trans ?_
    rw [hres]
    exact (List.perm_cons_erase ha).symm

/-- A shape is right in probation if it is right at all. -/
theorem NodeOk.probation {n : Node} (h : NodeOk n) : NodeOk { n with seg := .segProbation } := by
  unfold NodeOk at *
  split_ifs at h with hk
  · rw [if_pos hk]
    exact ⟨h.1, h.2.1, rfl⟩
  · rw [if_neg hk]
    exact ⟨h.1, fun _ => rfl⟩

theorem Wf.lruDemote (h : Wf held pending [] [] [] z) (cap fuel : ℕ) :
    let z' := Shm.lruDemote cap fuel z
    Wf held pending [] [] [] z' ∧ Kept none z z' ∧ z'.resident.Perm z.resident := by
  induction fuel generalizing z with
  | zero => exact ⟨h, Kept.refl _ _, List.Perm.refl _⟩
  | succ fuel ih =>
    unfold Shm.lruDemote
    split_ifs
    · cases hv : z.lruProtected.getLast? with
      | none => exact ⟨h, Kept.refl _ _, List.Perm.refl _⟩
      | some victim =>
        have hmem : victim ∈ z.resident :=
          List.mem_append_right _ (List.mem_of_getLast? hv)
        obtain ⟨h1, h2, hp⟩ := h.relink hmem (f := fun n => { n with seg := .segProbation }) rfl rfl
          (h.queues.shape victim hmem).probation
        obtain ⟨h3, h4, hp'⟩ := ih h1
        exact ⟨h3, h2.trans h4, hp'.trans hp⟩
    · exact ⟨h, Kept.refl _ _, List.Perm.refl _⟩

/-- The labels `shm_touch_lru` puts on the unlinked node. -/
def touched (protectedPct : ℕ) (n : Node) : Node :=
  { (if protectedPct = 0 then { n with seg := .segProbation }
      else if n.kind = .entry ∧ n.seg = .segProbation ∧ n.promotable then
        { n with seg := .segProtected }
      else n : Node) with promotable := true }

theorem touched_key (protectedPct : ℕ) (n : Node) : (touched protectedPct n).key = n.key := by
  unfold touched
  split_ifs <;> rfl

theorem touched_core (protectedPct : ℕ) (n : Node) : (touched protectedPct n).core = n.core := by
  unfold touched
  split_ifs <;> rfl

/-- They are labels the node's kind allows. -/
theorem NodeOk.touched {n : Node} (h : NodeOk n) (protectedPct : ℕ) :
    NodeOk (touched protectedPct n) := by
  unfold Shm.touched
  split_ifs with h0 hp
  · exact h.probation
  · unfold NodeOk at *
    simp only [hp.1] at h ⊢
    exact ⟨h.1, nofun⟩
  · exact h

theorem Wf.lruEnforceCap (h : Wf held pending [] [] [] z) (protectedPct : ℕ) :
    let z' := Shm.lruEnforceCap z protectedPct
    Wf held pending [] [] [] z' ∧ Kept none z z' ∧ z'.resident.Perm z.resident :=
  h.lruDemote _ lruCapMaxEvict

theorem touchLru_eq (z : Zone) (a : Addr) (now : Time) (protectedPct : ℕ) (hash : UInt32) :
    touchLru z a now protectedPct hash =
      let z₁ : Zone := { z with sketch := sketchBump z.sketch (sketchRows hash) }
      let z₂ := z₁.setNode a fun n => { n with lastAccess := now }
      let z₃ := lruLinkHead ((lruUnlink z₂ a).setNode a (touched protectedPct)) a
      if now - (z.mem a).lastAccess < 1 then z₁
      else if protectedPct > 0 then lruEnforceCap z₃ protectedPct else z₃ := by
  unfold touchLru
  dsimp only
  rw [setNode_setNode]
  rfl

/-- **`shm_touch_lru`** moves nodes between the queues and nothing else. -/
theorem Wf.touchLru (h : Wf held pending [] [] [] z) {a : Addr} (ha : a ∈ z.resident) (now : Time)
    (protectedPct : ℕ) (hash : UInt32) :
    let z' := Shm.touchLru z a now protectedPct hash
    Wf held pending [] [] [] z' ∧ Kept none z z' ∧ z'.resident.Perm z.resident := by
  set z₁ : Zone := { z with sketch := sketchBump z.sketch (sketchRows hash) } with hz₁
  have h1 : Wf held pending [] [] [] z₁ := h.of_eq rfl rfl
  have hk1 : Kept none z z₁ := .of_mem rfl rfl rfl rfl le_rfl
  set z₂ := z₁.setNode a fun n => { n with lastAccess := now } with hz₂
  have h2 : Wf held pending [] [] [] z₂ :=
    h1.setNode_same a (f := fun n => { n with lastAccess := now }) rfl
  have hk2 : Kept none z z₂ :=
    hk1.trans (Kept.setNode_core z₁ a (f := fun n => { n with lastAccess := now }) rfl rfl)
  obtain ⟨h3, hk3, hp3⟩ := h2.relink (a := a) (f := touched protectedPct) ha (touched_key _ _)
    (touched_core _ _) ((h2.queues.shape a ha).touched protectedPct)
  rw [touchLru_eq, ← hz₁]
  dsimp only
  split_ifs
  · exact ⟨h1, hk1, List.Perm.refl _⟩
  · obtain ⟨h4, hk4, hp4⟩ := h3.lruEnforceCap protectedPct
    exact ⟨h4, (hk2.trans hk3).trans hk4, hp4.trans hp3⟩
  · exact ⟨h3, hk2.trans hk3, hp3⟩

/-! ### Storing -/

variable (rb : Rbtree)

/-- The core a successful store leaves; the miss count of an existing node
survives it. -/
def storedCore (old : Option Core) (now : Time) (len : ℕ) (freshTtl staleTtl : Time)
    (body : BlobId) : Core where
  kind := .entry
  data := some body
  len := len
  freshUntil := now + freshTtl
  staleUntil := if staleTtl ≠ 0 then now + staleTtl else 0
  refreshing := false
  refreshOwner := 0
  refreshLockUntil := 0
  missCount := old.elim 0 Core.missCount
  l2NegUntil := 0

/-- The two ways a store ends: the node `a` under the digest holds the body `b`,
or every digest keeps its core or loses its node. -/
structure Stored (z : Zone) (keyHash : KeyHash) (now : Time) (data : List UInt8)
    (freshTtl staleTtl : Time) (z' : Zone) (a : Addr) (b : BlobId) : Prop where
  mem : a ∈ z'.resident
  key : (z'.mem a).key = keyHash
  seg : (z'.mem a).seg = .segProbation
  kept : Kept (some a) z z'
  core : (z'.mem a).core = storedCore (view z keyHash) now data.length freshTtl staleTtl b
  body : (z'.blob b).body = data

/-- The refresh path: the node is off its queue while others are evicted, and
comes back with the old body or with the new one. -/
theorem Wf.storeRefresh (h : Wf held pending [] [] [] z) {a : Addr} (ha : a ∈ z.resident)
    (now : Time) (data : List UInt8) (freshTtl staleTtl : Time) :
    let r := Shm.storeRefresh rb z now data freshTtl staleTtl a
    Wf held pending [] [] [] r.1 ∧
      ((r.2 = (.error, none) ∧ Kept none z r.1) ∨
        r.2 = (.ok, some a) ∧ ∃ b, Stored z (z.mem a).key now data freshTtl staleTtl r.1 a b) := by
  have h1 := h.unlink ha
  have hoff : a ∉ (lruUnlink z a).resident := fun hc =>
    h1.queues.not_mem_out hc (List.mem_cons_self ..)
  unfold Shm.storeRefresh
  dsimp only
  cases hr : Shm.blobAlloc rb (lruUnlink z a) now data with
  | mk z₁ r =>
    cases r with
    | none =>
      obtain ⟨h2, hev⟩ := h1.blobAlloc_none rb hr
      have hmem : z₁.mem a = z.mem a := hev.off a hoff
      rw [← hmem] at h2
      have hok : NodeOk (z₁.mem a) := by
        rw [hmem]
        exact h.queues.shape a ha
      refine ⟨h2.link hok, Or.inl ⟨rfl, ?_⟩⟩
      have hkept : Kept (some a) z (lruLinkHead z₁ a) :=
        ((Kept.unlink z a).trans (.of_evicts hev)).mono.trans (Kept.link z₁ a)
      refine hkept.drop ha ?_ ?_ <;> rw [Kept.mem_link, hmem]
    | some body =>
      obtain ⟨h2, hev, hbody⟩ := h1.blobAlloc rb hr
      have hmem : z₁.mem a = z.mem a := hev.off a hoff
      have hview : view z (z.mem a).key = some (z.mem a).core := view_resident h.queues ha
      rw [← hmem] at h2
      -- the old body goes while the node is in nobody's sight
      have h2' : Wf held pending [a] [] ((z₁.mem a).data.toList ++ [body]) z₁ :=
        ⟨h2.queues, h2.heap.perm (List.Perm.refl _)
          (List.Perm.append_left _ (by simpa using (List.perm_append_singleton body _).symm))⟩
      have h3 := h2'.release
      have hlinks := links_releaseData z₁ (z₁.mem a).data
      have hrest := rest_releaseData z₁ (z₁.mem a).data
      set z₂ := releaseData z₁ (z₁.mem a).data with hz₂
      have hmem₂ : z₂.mem a = z.mem a := by
        rw [← hmem]
        exact congrFun (congrArg (fun l => l.2.2.2.2.2) hlinks) a
      set write : Node → Node := fun n => { n with
        kind := .entry
        data := some body
        len := data.length
        freshUntil := now + freshTtl
        staleUntil := if staleTtl ≠ 0 then now + staleTtl else 0
        refreshing := false
        refreshLockUntil := 0
        refreshOwner := 0
        l2NegUntil := 0
        lastAccess := now
        seg := .segProbation
        promotable := false
        sieSpared := false } with hwrite
      set z₃ := z₂.setNode a write with hz₃
      have hmem₃ : z₃.mem a = write (z.mem a) := by rw [hz₃, setNode_mem_self, hmem₂]
      have h4 : Wf held pending [a] [] ((z₃.mem a).data.toList ++ []) z₃ := by
        rw [hmem₃]
        exact h3.setNode_out (f := write) (List.mem_cons_self ..) rfl
      have hok : NodeOk (z₃.mem a) := by
        rw [hmem₃]
        exact ⟨rfl, nofun⟩
      have hbody₃ : ((lruLinkHead z₃ a).blob body).body = data := by
        rw [← hbody]
        exact congrArg Prod.snd ((content_of_rest (Kept.rest_link z₃ a) body).trans
          (content_of_rest hrest body))
      refine ⟨h4.link hok, Or.inr ⟨rfl, body, ?_, ?_, ?_, ?_, ?_, hbody₃⟩⟩
      · exact (Kept.resident_link z₃ a).mem_iff.2 (List.mem_cons_self ..)
      · show ((lruLinkHead z₃ a).mem a).key = _
        rw [Kept.mem_link, hmem₃]
      · show ((lruLinkHead z₃ a).mem a).seg = _
        rw [Kept.mem_link, hmem₃]
      · have hk2 : Kept none z z₂ :=
          ((Kept.unlink z a).trans (.of_evicts hev)).trans (.of_links hlinks hrest)
        exact (hk2.mono.trans (Kept.setNode z₂ a write)).trans (Kept.link z₃ a)
      · show ((lruLinkHead z₃ a).mem a).core = _
        rw [Kept.mem_link, hmem₃, hview]
        rfl

/-- The frame of a store that worked on the node `a`. -/
theorem Stored.view_self {keyHash : KeyHash} {now : Time} {data : List UInt8}
    {freshTtl staleTtl : Time} {z' : Zone} {a : Addr} {b : BlobId}
    (h : Stored z keyHash now data freshTtl staleTtl z' a b) (hq : Queues [] z') :
    view z' keyHash = some (storedCore (view z keyHash) now data.length freshTtl staleTtl b) := by
  have hv := view_resident hq h.mem
  rwa [h.key, h.core] at hv

/-- Admission counts a refusal and changes nothing else. -/
theorem shmAdmit_eq (z : Zone) (hash : UInt32) : (shmAdmit z hash).1 = z ∨
    (shmAdmit z hash).1 = { z with admissionRefused := z.admissionRefused + 1 } := by
  unfold shmAdmit
  split_ifs
  · exact Or.inl rfl
  · exact Or.inl rfl
  · split
    · exact Or.inl rfl
    · dsimp only
      split_ifs
      · exact Or.inr rfl
      · exact Or.inl rfl

theorem Wf.shmAdmit (h : Wf held pending [] [] [] z) (hash : UInt32) :
    Wf held pending [] [] [] (Shm.shmAdmit z hash).1 ∧ Kept none z (Shm.shmAdmit z hash).1 := by
  rcases shmAdmit_eq z hash with he | he <;> rw [he]
  · exact ⟨h, Kept.refl _ _⟩
  · exact ⟨h.of_eq rfl rfl, .of_mem rfl rfl rfl rfl le_rfl⟩

/-- The create path: admission, then two allocations, then the node. -/
theorem Wf.storeCreate (h : Wf held pending [] [] [] z) {keyHash : KeyHash}
    (hnone : lookup z keyHash = none) (hash : UInt32) (now : Time) (data : List UInt8)
    (freshTtl staleTtl : Time) :
    let r := Shm.storeCreate rb z keyHash hash now data freshTtl staleTtl
    Wf held pending [] [] [] r.1 ∧
      ((r.2.1 ≠ .ok ∧ r.2.2 = none ∧ Kept none z r.1) ∨
        ∃ a b, r.2 = (.ok, some a) ∧ Stored z keyHash now data freshTtl staleTtl r.1 a b) := by
  obtain ⟨h0, hk0⟩ := h.shmAdmit hash
  unfold Shm.storeCreate
  cases hadm : Shm.shmAdmit z hash with
  | mk z₀ admitted =>
    rw [hadm] at h0 hk0
    cases admitted with
    | false => exact ⟨h0, Or.inl ⟨nofun, rfl, hk0⟩⟩
    | true =>
      dsimp only
      cases hnode : Shm.allocEvict rb z₀ now sizeofNode with
      | mk z₁ p =>
        cases p with
        | none =>
          obtain ⟨h1, hev⟩ := h0.allocEvict_none rb hnode
          exact ⟨h1, Or.inl ⟨nofun, rfl, hk0.trans (.of_evicts hev)⟩⟩
        | some ctn =>
          obtain ⟨h1, hev⟩ := h0.allocNode rb hnode
          have hk1 : Kept none z z₁ := hk0.trans (.of_evicts hev)
          dsimp only
          cases hblob : Shm.blobAlloc rb z₁ now data with
          | mk z₂ r =>
            cases r with
            | none =>
              obtain ⟨h2, hev'⟩ := h1.blobAlloc_none rb hblob
              refine ⟨h2.freeNode, Or.inl ⟨nofun, rfl, ?_⟩⟩
              exact (hk1.trans (.of_evicts hev')).trans
                (.of_links (links_freeLocked _ _ _) (rest_freeLocked _ _ _))
            | some body =>
              obtain ⟨h2, hev', hbody⟩ := h1.blobAlloc rb hblob
              have hk2 : Kept none z z₂ := hk1.trans (.of_evicts hev')
              have hview : view z keyHash = none := view_none hnone
              refine ⟨?_, Or.inr ⟨ctn, body, rfl, List.mem_cons_self .., ?_, ?_, ?_, ?_, hbody⟩⟩
              · refine Wf.create rb h2 (fun b hb => ?_) ⟨rfl, nofun⟩
                exact hk2.key_new h.queues hnone (hb.resolve_right (List.not_mem_nil))
              · rw [createNode_mem]
              · rw [createNode_mem]
              · exact hk2.mono.trans (Kept.create rb z₂ ctn _)
              · rw [createNode_mem, hview]
                rfl

/-- **`shm_store_locked`**, whether or not the caller brings the node. -/
theorem Wf.storeLocked (h : Wf held pending [] [] [] z) (keyHash : KeyHash) (hash : UInt32)
    (now : Time) (data : List UInt8) (freshTtl staleTtl : Time) {ctn : Option Addr}
    (hctn : ctn = none ∨ ctn = lookup z keyHash) :
    let r := Shm.storeLocked rb z keyHash hash now data freshTtl staleTtl ctn
    Wf held pending [] [] [] r.1 ∧
      ((r.2.1 ≠ .ok ∧ r.2.2 = none ∧ Kept none z r.1) ∨
        ∃ a b, r.2 = (.ok, some a) ∧ Stored z keyHash now data freshTtl staleTtl r.1 a b) := by
  have hor : ctn.or (lookup z keyHash) = lookup z keyHash := by
    rcases hctn with rfl | rfl
    · rfl
    · cases lookup z keyHash <;> rfl
  unfold Shm.storeLocked
  rw [hor]
  cases hl : lookup z keyHash with
  | none => exact h.storeCreate rb hl hash now data freshTtl staleTtl
  | some a =>
    obtain ⟨ha, hk⟩ := h.queues.lookup_resident hl
    obtain ⟨h1, hr⟩ := h.storeRefresh rb ha now data freshTtl staleTtl
    refine ⟨h1, ?_⟩
    rcases hr with ⟨he, hkept⟩ | ⟨he, b, hs⟩
    · refine Or.inl ⟨?_, ?_, hkept⟩
      · dsimp only
        rw [he]
        exact nofun
      · dsimp only
        rw [he]
    · rw [hk] at hs
      exact Or.inr ⟨a, b, he, hs⟩

/-- What a storing operation answers, and what it leaves under its digest. -/
def StoreEffect (z : Zone) (keyHash : KeyHash) (now : Time) (data : List UInt8)
    (freshTtl staleTtl : Time) (kind : NodeKind) (z' : Zone) (rc : Rc) (pin : Option BlobId) :
    Prop :=
  (rc ≠ .ok ∧ pin = none ∧ Survives z z' keyHash) ∨
    rc = .ok ∧ ∃ b, (pin = none ∨ pin = some b) ∧ (z'.blob b).body = data ∧
      view z' keyHash = some { storedCore (view z keyHash) now data.length freshTtl staleTtl b with
        kind := kind }

/-- `shm_store` and `shm_store_if` after `shm_store_locked`: the caller may take
a reference on the body just stored. -/
theorem Wf.pinWritten (h : Wf held pending [] [] [] z) (keyHash : KeyHash) (hash : UInt32)
    (now : Time) (data : List UInt8) (freshTtl staleTtl : Time) (wanted : Bool) {ctn : Option Addr}
    (hctn : ctn = none ∨ ctn = lookup z keyHash) :
    let r := Shm.pinWritten wanted
      (Shm.storeLocked rb z keyHash hash now data freshTtl staleTtl ctn)
    Wf (r.2.2.toList ++ held) pending [] [] [] r.1 ∧ Framed keyHash z r.1 ∧
      StoreEffect z keyHash now data freshTtl staleTtl .entry r.1 r.2.1 r.2.2 := by
  obtain ⟨h1, hr⟩ := h.storeLocked rb keyHash hash now data freshTtl staleTtl hctn
  cases hs : Shm.storeLocked rb z keyHash hash now data freshTtl staleTtl ctn with
  | mk z' r =>
    rw [hs] at h1 hr
    dsimp only at h1 hr
    rcases hr with ⟨hrc, hout, hkept⟩ | ⟨a, b, hok, hst⟩
    · have hpin : Shm.pinWritten wanted (z', r) = (z', r.1, none) := by
        obtain ⟨rc, out⟩ := r
        dsimp only at hout
        subst hout
        cases rc <;> rfl
      rw [hpin]
      exact ⟨h1, hkept.framed h.queues h1.queues nofun,
        Or.inl ⟨hrc, rfl, hkept.survives h.queues h1.queues keyHash⟩⟩
    · subst hok
      have hframed : Framed keyHash z z' := hst.kept.framed h.queues h1.queues
        fun c hc => by rw [← Option.some.inj hc]; exact hst.key
      have hview := hst.view_self h1.queues
      have hdata : (z'.mem a).data = some b := congrArg Core.data hst.core
      cases wanted with
      | false => exact ⟨h1, hframed, Or.inr ⟨rfl, b, Or.inl rfl, hst.body, hview⟩⟩
      | true =>
        have hpin : Shm.pinWritten true (z', (.ok, some a)) = (blobAcquire z' b, .ok, some b) := by
          unfold Shm.pinWritten
          simp only [if_true, hdata]
        have hrest := rest_blobAcquire z' b
        have hsame : view (blobAcquire z' b) = view z' := view_of_links rfl
        rw [hpin]
        refine ⟨h1.acquire hst.mem hdata, ⟨fun k hk => ?_, hframed.serial, fun c hc => ?_,
          hframed.ownerSeq⟩, Or.inr ⟨rfl, b, Or.inr rfl, ?_, ?_⟩⟩
        · unfold Survives
          rw [hsame]
          exact hframed.other k hk
        · exact (content_of_rest hrest c).trans (hframed.content c hc)
        · exact (congrArg Prod.snd (content_of_rest hrest b)).trans hst.body
        · rw [hsame]
          exact hview

theorem Wf.store (h : Wf held pending [] [] [] z) (keyHash : KeyHash) (hash : UInt32) (now : Time)
    (data : List UInt8) (freshTtl staleTtl : Time) (wanted : Bool) :
    let r := Shm.store rb z keyHash hash now data freshTtl staleTtl wanted
    Wf (r.2.2.toList ++ held) pending [] [] [] r.1 ∧ Framed keyHash z r.1 ∧
      StoreEffect z keyHash now data freshTtl staleTtl .entry r.1 r.2.1 r.2.2 :=
  h.pinWritten rb keyHash hash now data freshTtl staleTtl wanted (Or.inl rfl)

/-- `shm_store_if`: a refusal changes nothing at all. -/
theorem Wf.storeIf (h : Wf held pending [] [] [] z) (keyHash : KeyHash) (hash : UInt32)
    (now : Time) (data : List UInt8) (freshTtl staleTtl : Time) (predicate : StoreIf)
    (wanted : Bool) :
    let r := Shm.storeIf rb z keyHash hash now data freshTtl staleTtl predicate wanted
    Wf (r.2.2.toList ++ held) pending [] [] [] r.1 ∧ Framed keyHash z r.1 ∧
      StoreEffect z keyHash now data freshTtl staleTtl .entry r.1 r.2.1 r.2.2 := by
  unfold Shm.storeIf
  dsimp only
  split_ifs
  · exact ⟨h, (Kept.refl none z).framed h.queues h.queues nofun,
      Or.inl ⟨nofun, rfl, Or.inr rfl⟩⟩
  · exact h.pinWritten rb keyHash hash now data freshTtl staleTtl wanted (Or.inr rfl)

/-- `shm_store_marker`. -/
theorem Wf.storeMarker (h : Wf held pending [] [] [] z) (keyHash : KeyHash) (hash : UInt32)
    (now : Time) (data : List UInt8) (freshTtl staleTtl : Time) :
    let r := Shm.storeMarker rb z keyHash hash now data freshTtl staleTtl
    Wf held pending [] [] [] r.1 ∧ Framed keyHash z r.1 ∧
      StoreEffect z keyHash now data freshTtl staleTtl .marker r.1 r.2 none := by
  obtain ⟨h1, hr⟩ := h.storeLocked rb keyHash hash now data freshTtl staleTtl (Or.inr rfl)
  unfold Shm.storeMarker
  dsimp only
  cases hs : Shm.storeLocked rb z keyHash hash now data freshTtl staleTtl (lookup z keyHash) with
  | mk z' r =>
    rw [hs] at h1 hr
    obtain ⟨rc, out⟩ := r
    dsimp only at h1 hr
    rcases hr with ⟨hrc, rfl, hkept⟩ | ⟨a, b, hok, hst⟩
    · have hsame : Framed keyHash z z' := hkept.framed h.queues h1.queues nofun
      have hown : Survives z z' keyHash := hkept.survives h.queues h1.queues keyHash
      cases rc <;> exact ⟨h1, hsame, Or.inl ⟨hrc, rfl, hown⟩⟩
    · obtain ⟨rfl, rfl⟩ := Prod.mk.inj hok
      set z₁ := z'.setNode a fun n => { n with kind := .marker } with hz₁
      have hmem : z₁.mem a = { z'.mem a with kind := .marker } := setNode_mem_self ..
      have hdata : (z'.mem a).data = some b := congrArg Core.data hst.core
      have h2 : Wf held pending [] [] [] z₁ := by
        refine h1.setNode_ok a rfl rfl rfl ?_
        refine ⟨?_, fun _ => hst.seg⟩
        rw [hdata]
        rfl
      have hkept : Kept (some a) z z₁ := hst.kept.trans (Kept.setNode z' a _)
      have hframed : Framed keyHash z z₁ := hkept.framed h.queues h2.queues fun c hc => by
        rw [← Option.some.inj hc, hmem]
        exact hst.key
      have hcore : (z₁.mem a).core =
          { storedCore (view z keyHash) now data.length freshTtl staleTtl b with kind := .marker } := by
        rw [hmem, ← hst.core]
        rfl
      have hview : view z₁ keyHash = some (z₁.mem a).core := by
        have hv := view_resident h2.queues (a := a) hst.mem
        rwa [hmem, hst.key, ← hmem] at hv
      have heffect : StoreEffect z keyHash now data freshTtl staleTtl .marker z₁ .ok none :=
        Or.inr ⟨rfl, b, Or.inl rfl, hst.body, hview.trans (congrArg some hcore)⟩
      dsimp only
      split_ifs
      · exact ⟨h2, hframed, heffect⟩
      · exact ⟨h2.of_eq rfl rfl, ⟨hframed.other, hframed.serial, hframed.content, hframed.ownerSeq⟩,
          heffect⟩

/-- A write to the node under a digest that keeps its shape. -/
theorem Wf.write (h : Wf held pending [] [] [] z) {keyHash : KeyHash} {a : Addr}
    (hl : lookup z keyHash = some a) {f : Node → Node}
    (hf : (f (z.mem a)).shape = (z.mem a).shape) :
    Wf held pending [] [] [] (z.setNode a f) ∧ Framed keyHash z (z.setNode a f) ∧
      view (z.setNode a f) keyHash = some (f (z.mem a)).core := by
  obtain ⟨ha, hk⟩ := h.queues.lookup_resident hl
  have h1 := h.setNode_same a hf
  have hkey : ((z.setNode a f).mem a).key = keyHash := by
    rw [setNode_mem_self, ← hk]
    exact congrArg (fun s => s.1) hf
  refine ⟨h1, (Kept.setNode z a f).framed h.queues h1.queues fun c hc => ?_, ?_⟩
  · rw [← Option.some.inj hc]
    exact hkey
  · have hv := view_resident h1.queues (a := a) ha
    rwa [hkey, setNode_mem_self] at hv

/-- The core a 304 leaves. -/
def freshenedCore (old : Core) (now freshTtl staleTtl : Time) : Core :=
  { old with
    freshUntil := now + freshTtl
    staleUntil := if staleTtl ≠ 0 then now + staleTtl else 0
    refreshing := false
    refreshOwner := 0
    refreshLockUntil := 0 }

/-- `shm_freshen` renews the entry under the digest, or changes nothing. -/
theorem Wf.freshen (h : Wf held pending [] [] [] z) (keyHash : KeyHash)
    (now freshTtl staleTtl : Time) :
    let r := Shm.freshen z keyHash now freshTtl staleTtl
    Wf held pending [] [] [] r.1 ∧ Framed keyHash z r.1 ∧
      ((r.2 = .declined ∧ r.1 = z) ∨ r.2 = .ok ∧ ∃ c, view z keyHash = some c ∧ c.kind = .entry ∧
        view r.1 keyHash = some (freshenedCore c now freshTtl staleTtl)) := by
  have hsame : Framed keyHash z z := (Kept.refl none z).framed h.queues h.queues nofun
  unfold Shm.freshen
  cases hl : lookup z keyHash with
  | none => exact ⟨h, hsame, Or.inl ⟨rfl, rfl⟩⟩
  | some a =>
    dsimp only
    by_cases hdead : (z.mem a).kind ≠ .entry ∨ (z.mem a).len = 0
    · rw [if_pos hdead]
      exact ⟨h, hsame, Or.inl ⟨rfl, rfl⟩⟩
    · rw [if_neg hdead]
      obtain ⟨hentry, -⟩ := not_or.1 hdead
      obtain ⟨h1, h2, h3⟩ := h.write hl (f := fun n => { n with
        freshUntil := now + freshTtl
        staleUntil := if staleTtl ≠ 0 then now + staleTtl else 0
        refreshing := false
        refreshLockUntil := 0
        refreshOwner := 0
        lastAccess := now }) rfl
      exact ⟨h1, h2, Or.inr ⟨rfl, (z.mem a).core, view_lookup hl, not_not.1 hentry, h3⟩⟩

/-! ### Purging -/

/-- A digest whose node has left the queues has none. -/
theorem view_erased {z' : Zone} (h : Queues [] z) (h' : Queues [] z') {keyHash : KeyHash} {a : Addr}
    (hl : lookup z keyHash = some a) (hres : z'.resident = z.resident.erase a)
    (hkey : ∀ b, (z'.mem b).key = (z.mem b).key) : view z' keyHash = none := by
  cases hl' : lookup z' keyHash with
  | none => exact view_none hl'
  | some b =>
    obtain ⟨hb, hkb⟩ := h'.lookup_resident hl'
    rw [hres] at hb
    rw [hkey] at hkb
    have hba : lookup z keyHash = some b :=
      (h.lookup_iff keyHash b).2 ⟨Or.inl (List.mem_of_mem_erase hb), hkb⟩
    rw [hl] at hba
    obtain rfl := Option.some.inj hba
    exact absurd hb h.resident_nodup.not_mem_erase

theorem Wf.dropKey (h : Wf held pending [] [] [] z) {keyHash : KeyHash} {a : Addr}
    (hl : lookup z keyHash = some a) :
    Wf held pending [] [] [] (dropLocked rb z a) ∧ Kept none z (dropLocked rb z a) ∧
      view (dropLocked rb z a) keyHash = none := by
  obtain ⟨ha, -⟩ := h.queues.lookup_resident hl
  have h1 := h.drop rb ha
  refine ⟨h1, .of_evicts (Evicts.drop rb z a), view_erased h.queues h1.queues hl ?_ fun b => ?_⟩
  · exact h.resident_drop rb a
  · rw [mem_dropLocked]

theorem Wf.purgeKey (h : Wf held pending [] [] [] z) (keyHash : KeyHash) :
    let r := Shm.purgeKey rb z keyHash
    Wf held pending [] [] [] r.1 ∧ Kept none z r.1 ∧ view r.1 keyHash = none := by
  unfold Shm.purgeKey
  cases hl : lookup z keyHash with
  | none => exact ⟨h, Kept.refl _ _, view_none hl⟩
  | some a => exact h.dropKey rb hl

theorem Wf.purgeIfBlob (h : Wf held pending [] [] [] z) (keyHash : KeyHash) (stored : BlobId) :
    let r := Shm.purgeIfBlob rb z keyHash stored
    Wf held pending [] [] [] r.1 ∧ Kept none z r.1 ∧
      ((r.2 = false ∧ r.1 = z) ∨ r.2 = true ∧ view r.1 keyHash = none) := by
  unfold Shm.purgeIfBlob
  cases hl : lookup z keyHash with
  | none => exact ⟨h, Kept.refl _ _, Or.inl ⟨rfl, rfl⟩⟩
  | some a =>
    dsimp only
    split
    next => exact ⟨h, Kept.refl _ _, Or.inl ⟨rfl, rfl⟩⟩
    next b _ =>
      split_ifs
      · exact ⟨h, Kept.refl _ _, Or.inl ⟨rfl, rfl⟩⟩
      · obtain ⟨h1, h2, h3⟩ := h.dropKey rb hl
        exact ⟨h1, h2, Or.inr ⟨rfl, h3⟩⟩

/-- A batch of `shm_purge_all` drops queue heads. -/
theorem Wf.dropHeads (h : Wf held pending [] [] [] z) (queue : Zone → List Addr)
    (hqueue : ∀ z, ∀ a ∈ queue z, a ∈ z.resident) (limit : ℕ) :
    let r := Shm.dropHeads rb queue limit z
    Wf held pending [] [] [] r.1 ∧ Kept none z r.1 := by
  induction limit generalizing z with
  | zero => exact ⟨h, Kept.refl _ _⟩
  | succ limit ih =>
    unfold Shm.dropHeads
    split
    next => exact ⟨h, Kept.refl _ _⟩
    next head rest hq =>
      have ha : head ∈ z.resident := hqueue z head (hq ▸ List.mem_cons_self ..)
      obtain ⟨h1, h2⟩ := ih (h.drop rb ha)
      exact ⟨h1, (Kept.of_evicts (Evicts.drop rb z head)).trans h2⟩

theorem Wf.purgeBatch (h : Wf held pending [] [] [] z) (remaining : ℕ) :
    let r := Shm.purgeBatch rb z remaining
    Wf held pending [] [] [] r.1 ∧ Kept none z r.1 := by
  obtain ⟨h1, h2⟩ := h.dropHeads rb Zone.lru (fun _ _ ha => List.mem_append_left _ ha)
    (min purgeBatchMax remaining)
  obtain ⟨h3, h4⟩ := h1.dropHeads rb Zone.lruProtected (fun _ _ ha => List.mem_append_right _ ha)
    (min purgeBatchMax remaining - (Shm.dropHeads rb Zone.lru (min purgeBatchMax remaining) z).2)
  exact ⟨h3, h2.trans h4⟩

theorem Wf.purgeLoop (h : Wf held pending [] [] [] z) (fuel remaining purged : ℕ) :
    let r := Shm.purgeLoop rb fuel z remaining purged
    Wf held pending [] [] [] r.1 ∧ Kept none z r.1 := by
  induction fuel generalizing z remaining purged with
  | zero => exact ⟨h, Kept.refl _ _⟩
  | succ fuel ih =>
    obtain ⟨h1, h2⟩ := h.purgeBatch rb remaining
    unfold Shm.purgeLoop
    dsimp only
    split_ifs
    · exact ⟨h, Kept.refl _ _⟩
    · exact ⟨h1, h2⟩
    · exact ⟨h1, h2⟩
    · obtain ⟨h3, h4⟩ := ih h1 (remaining - (Shm.purgeBatch rb z remaining).2)
        (purged + (Shm.purgeBatch rb z remaining).2)
      exact ⟨h3, h2.trans h4⟩

theorem Wf.purgeAll (h : Wf held pending [] [] [] z) :
    let r := Shm.purgeAll rb z
    Wf held pending [] [] [] r.1 ∧ Kept none z r.1 := by
  unfold Shm.purgeAll
  split_ifs
  · exact ⟨h, Kept.refl _ _⟩
  · exact h.purgeLoop rb (z.nEntries + 1) z.nEntries 0

end Shm
end CacheTurbo
