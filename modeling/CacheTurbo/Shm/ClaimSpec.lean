/-
# What leases, miss counters, the memo and an L1 lookup do

One theorem for each lock-held function of `Claim.lean`, in the form of
`StoreSpec.lean`.  The effects say when a lease is granted and which fields a
grant writes; `Core.Live` is a lease that is still running.
-/

import CacheTurbo.Shm.StoreSpec

namespace CacheTurbo
namespace Shm

variable {held pending : List BlobId} {z : Zone}

/-- A lease that has not expired. -/
def Core.Live (c : Core) (now : Time) : Prop := c.refreshing = true ∧ now < c.refreshLockUntil

instance (c : Core) (now : Time) : Decidable (c.Live now) :=
  inferInstanceAs (Decidable (_ ∧ _))

/-- The core of a counter that counts nothing and holds no lease. -/
def counterCore : Core := ⟨.counter, none, 0, 0, 0, false, 0, 0, 0, 0⟩

/-- A core with a lease granted by a claim. -/
def Core.leased (c : Core) (owner : ℕ) (deadline : Time) : Core :=
  { c with refreshing := true, refreshOwner := owner, refreshLockUntil := deadline }

theorem Framed.refl (h : Queues [] z) (keyHash : KeyHash) : Framed keyHash z z :=
  (Kept.refl none z).framed h h nofun

theorem Framed.trans {z' z'' : Zone} {keyHash : KeyHash} (h : Framed keyHash z z')
    (h' : Framed keyHash z' z'') : Framed keyHash z z'' where
  other k hk := by
    rcases h'.other k hk with hn | he
    · exact Or.inl hn
    · rcases h.other k hk with hn | he'
      · exact Or.inl (he.trans hn)
      · exact Or.inr (he.trans he')
  serial := h.serial.trans h'.serial
  content b hb := by rw [h'.content b (lt_of_lt_of_le hb h.serial), h.content b hb]
  ownerSeq := h.ownerSeq.trans h'.ownerSeq

/-- Pinning a body changes no core. -/
theorem view_pinData (z : Zone) (data : Option BlobId) : view (pinData z data) = view z := by
  cases data with
  | none => rfl
  | some b => exact view_of_links rfl

theorem Wf.pinData (h : Wf held pending [] [] [] z) {a : Addr} (ha : a ∈ z.resident) :
    Wf ((z.mem a).data.toList ++ held) pending [] [] [] (Shm.pinData z (z.mem a).data) := by
  cases hd : (z.mem a).data with
  | none => exact h
  | some b => exact h.acquire ha hd

/-- A write that keeps the digests keeps the lookup. -/
theorem lookup_setNode (h : Wf held pending [] [] [] z) (a : Addr) {f : Node → Node}
    (hf : (f (z.mem a)).shape = (z.mem a).shape) (keyHash : KeyHash) :
    lookup (z.setNode a f) keyHash = lookup z keyHash := by
  have hkey : ∀ b, ((z.setNode a f).mem b).key = (z.mem b).key := by
    intro b
    by_cases hb : b = a
    · subst hb
      rw [setNode_mem_self]
      exact congrArg (fun s => s.1) hf
    · rw [setNode_mem_of_ne z hb]
  refine Option.ext fun b => ?_
  have h1 := (h.setNode_same a hf).queues.lookup_iff keyHash b
  have h2 := h.queues.lookup_iff keyHash b
  rw [hkey] at h1
  exact h1.trans h2.symm

variable (rb : Rbtree)

/-! ### Counter nodes -/

/-- The block of a new node, or the reason there is none. -/
theorem Wf.counterAlloc (h : Wf held pending [] [] [] z) {keyHash : KeyHash}
    (hnone : lookup z keyHash = none) {now : Time} {z₁ : Zone} {a : Addr}
    (hr : Shm.allocEvict rb z now sizeofNode = (z₁, some a)) (write : Node → Node)
    (z₂ : Zone) (hz₂ : z₂ = { z₁ with ownerSeq := z₂.ownerSeq }) (hseq : z.ownerSeq ≤ z₂.ownerSeq)
    (hkey : (write (z₂.mem a)).key = keyHash) (hkind : (write (z₂.mem a)).kind = .counter)
    (hdata : (write (z₂.mem a)).data = none) (hlen : (write (z₂.mem a)).len = 0) :
    Wf held pending [] [] [] (createNode rb z₂ a write) ∧
      Framed keyHash z (createNode rb z₂ a write) ∧
      view (createNode rb z₂ a write) keyHash = some (write (z₂.mem a)).core := by
  obtain ⟨h1, hev⟩ := h.allocNode rb hr
  have h2 : Wf held pending [] [a] [] z₂ := by
    rw [hz₂]
    exact h1.of_eq rfl rfl
  have hk2 : Kept none z z₂ := by
    rw [hz₂]
    exact ⟨(Kept.of_evicts hev).nodes, hev.serial, hev.content, hseq⟩
  have h3 : Wf held pending [] [] [] (createNode rb z₂ a write) := by
    refine Wf.create rb (by rw [hdata]; exact h2) (fun b hb => ?_) ?_
    · rw [hkey]
      exact hk2.key_new h.queues hnone (hb.resolve_right List.not_mem_nil)
    · unfold NodeOk
      rw [if_pos hkind]
      exact ⟨hdata, hlen, rfl⟩
  have hmem := createNode_mem rb z₂ a write
  refine ⟨h3, (hk2.mono.trans (Kept.create rb z₂ a write)).framed h.queues h3.queues ?_, ?_⟩
  · intro c hc
    rw [← Option.some.inj hc, hmem]
    exact hkey
  · have hv := view_resident h3.queues (a := a) (List.mem_cons_self ..)
    rw [hmem] at hv
    rw [← hkey]
    exact hv

/-! ### Claims -/

/-- What a claim answers, and what it leaves under its digest. -/
def ClaimEffect (z : Zone) (keyHash : KeyHash) (now lockTtl : Time) (z' : Zone)
    (answer : ClaimAnswer) : Prop :=
  match answer.verdict with
  | .fresh => answer.owner = 0 ∧ view z' = view z ∧
      ∃ c, view z keyHash = some c ∧ 0 < c.len ∧ now < c.freshUntil
  | .loser => answer.owner = 0 ∧ z' = z ∧ ∃ c, view z keyHash = some c ∧ c.Live now
  | .winner =>
      (answer.owner = 0 ∧ view z keyHash = none ∧ view z' keyHash = none) ∨
        answer.owner = z.ownerSeq + 1 ∧ z'.ownerSeq = answer.owner ∧
          (∀ c, view z keyHash = some c → ¬ c.Live now) ∧
          view z' keyHash =
            some (((view z keyHash).getD counterCore).leased answer.owner (now + lockTtl))

/-- **`shm_claim_locked`**. -/
theorem Wf.claimLocked (h : Wf held pending [] [] [] z) (hash : UInt32) (keyHash : KeyHash)
    (lockTtl now : Time) (pin : Bool) :
    let r := Shm.claimLocked rb z hash keyHash lockTtl (lookup z keyHash) now pin
    Wf (r.2.freshData.toList ++ held) pending [] [] [] r.1 ∧ Framed keyHash z r.1 ∧
      ClaimEffect z keyHash now lockTtl r.1 r.2 := by
  unfold Shm.claimLocked
  cases hl : lookup z keyHash with
  | some a =>
    obtain ⟨ha, -⟩ := h.queues.lookup_resident hl
    have hview : view z keyHash = some (z.mem a).core := view_lookup hl
    dsimp only
    split_ifs with hfresh hpin hlive
    · have h1 := h.pinData ha
      refine ⟨h1, (Kept.pin z _).framed h.queues h1.queues nofun, rfl, view_pinData z _, ?_⟩
      exact ⟨_, hview, hfresh.1, hfresh.2⟩
    · exact ⟨h, Framed.refl h.queues keyHash, rfl, rfl, _, hview, hfresh.1, hfresh.2⟩
    · exact ⟨h, Framed.refl h.queues keyHash, rfl, rfl, _, hview, hlive.1, hlive.2⟩
    · set z₁ : Zone := { z with ownerSeq := z.ownerSeq + 1 } with hz₁
      have h1 : Wf held pending [] [] [] z₁ := h.of_eq rfl rfl
      have hk1 : Kept none z z₁ := .of_mem rfl rfl rfl rfl (Nat.le_succ _)
      have hl₁ : lookup z₁ keyHash = some a := hl
      obtain ⟨h2, hfr, hv⟩ := h1.write hl₁ (f := fun n => { n with
        refreshing := true, refreshLockUntil := now + lockTtl, refreshOwner := z.ownerSeq + 1 }) rfl
      refine ⟨h2, (hk1.framed h.queues h1.queues nofun).trans hfr, Or.inr ⟨rfl, rfl, ?_, ?_⟩⟩
      · intro c hc
        rw [hview] at hc
        obtain rfl := Option.some.inj hc
        exact hlive
      · rw [hv, hview]
        rfl
  | none =>
    have hview : view z keyHash = none := view_none hl
    dsimp only
    cases hr : Shm.allocEvict rb z now sizeofNode with
    | mk z₁ p =>
      cases p with
      | none =>
        obtain ⟨h1, hev⟩ := h.allocEvict_none rb hr
        have hk : Kept none z z₁ := .of_evicts hev
        refine ⟨h1, hk.framed h.queues h1.queues nofun, Or.inl ⟨rfl, hview, ?_⟩⟩
        rcases hk.survives h.queues h1.queues keyHash with hn | he
        · exact hn
        · exact he.trans hview
      | some a =>
        have hseq : z₁.ownerSeq = z.ownerSeq := (h.allocNode rb hr).2.ownerSeq
        dsimp only
        set z₂ : Zone := { z₁ with ownerSeq := z₁.ownerSeq + 1 } with hz₂
        have hle : z.ownerSeq ≤ z₂.ownerSeq := by
          show z.ownerSeq ≤ z₁.ownerSeq + 1
          omega
        obtain ⟨h2, hfr, hv⟩ := h.counterAlloc rb hl hr
          (fun n => { counterNode n keyHash hash now with
            refreshing := true
            refreshLockUntil := now + lockTtl
            refreshOwner := z₁.ownerSeq + 1
            missCount := 0
            l2NegUntil := 0 }) z₂ rfl hle rfl rfl rfl rfl
        refine ⟨h2, hfr, Or.inr ⟨?_, rfl, ?_, ?_⟩⟩
        · show z₁.ownerSeq + 1 = _
          rw [hseq]
        · rw [hview]
          exact nofun
        · rw [hv, hview]
          rfl

theorem Wf.claim (h : Wf held pending [] [] [] z) (keyHash : KeyHash) (hash : UInt32)
    (now lockTtl : Time) :
    let r := Shm.claim rb z keyHash hash now lockTtl
    Wf (r.2.freshData.toList ++ held) pending [] [] [] r.1 ∧ Framed keyHash z r.1 ∧
      ClaimEffect z keyHash now lockTtl r.1 r.2 :=
  h.claimLocked rb hash keyHash lockTtl now false

/-! ### Miss counters -/

/-- What a miss count answers, and what it leaves under its digest. -/
def CountEffect (z : Zone) (keyHash : KeyHash) (now : Time) (minUses : ℤ) (z' : Zone) (rc : Rc) :
    Prop :=
  (z' = z ∧ rc = .ok ∧
      ∃ c, view z keyHash = some c ∧ (c.kind = .entry ∧ 0 < c.len ∨ c.Live now)) ∨
    (∃ c m, view z keyHash = some c ∧ ¬ c.Live now ∧ (m = c.missCount + 1 ∨ m = 1) ∧
      view z' keyHash = some { c with missCount := m } ∧
      rc = if (m : ℤ) ≥ minUses then .ok else .declined) ∨
    (view z keyHash = none ∧ rc = .ok ∧ view z' keyHash = none) ∨
    view z keyHash = none ∧ rc = (if minUses ≤ 1 then .ok else .declined) ∧
      view z' keyHash = some { counterCore with missCount := 1 }

/-- **`shm_count_miss_locked`**; a resident node keeps its place in the tree. -/
theorem Wf.countMissLocked (h : Wf held pending [] [] [] z) (keyHash : KeyHash) (hash : UInt32)
    (minUses : ℤ) (window now : Time) :
    let r := Shm.countMissLocked rb z keyHash hash minUses window (lookup z keyHash) now
    Wf held pending [] [] [] r.1 ∧ Framed keyHash z r.1 ∧
      CountEffect z keyHash now minUses r.1 r.2 ∧
      ∀ a, lookup z keyHash = some a → lookup r.1 keyHash = some a := by
  unfold Shm.countMissLocked
  cases hl : lookup z keyHash with
  | some a =>
    have hview : view z keyHash = some (z.mem a).core := view_lookup hl
    dsimp only
    by_cases hentry : (z.mem a).kind = .entry ∧ (z.mem a).len > 0
    · rw [if_pos hentry]
      exact ⟨h, Framed.refl h.queues keyHash, Or.inl ⟨rfl, rfl, _, hview, Or.inl hentry⟩,
        fun _ hb => hl.trans hb⟩
    · by_cases hlive : (z.mem a).refreshing = true ∧ now < (z.mem a).refreshLockUntil
      · rw [if_neg hentry, if_pos hlive]
        exact ⟨h, Framed.refl h.queues keyHash, Or.inl ⟨rfl, rfl, _, hview, Or.inr hlive⟩,
          fun _ hb => hl.trans hb⟩
      · rw [if_neg hentry, if_neg hlive]
        set m : ℕ := (if window > 0 ∧ now - (z.mem a).lastAccess > window then 0
          else (z.mem a).missCount) + 1 with hm
        have hcount : m = (z.mem a).core.missCount + 1 ∨ m = 1 := by
          rw [hm]
          split_ifs
          · exact Or.inr rfl
          · exact Or.inl rfl
        obtain ⟨h1, hfr, hv⟩ := h.write hl (f := fun n => { n with missCount := m }) rfl
        refine ⟨h1, hfr, Or.inr (Or.inl ⟨_, m, hview, hlive, hcount, hv, rfl⟩), fun b hb => ?_⟩
        rw [lookup_setNode h a (f := fun n => { n with missCount := m }) rfl]
        exact hl.trans hb
  | none =>
    have hview : view z keyHash = none := view_none hl
    dsimp only
    cases hr : Shm.allocEvict rb z now sizeofNode with
    | mk z₁ p =>
      cases p with
      | none =>
        obtain ⟨h1, hev⟩ := h.allocEvict_none rb hr
        have hk : Kept none z z₁ := .of_evicts hev
        refine ⟨h1, hk.framed h.queues h1.queues nofun,
          Or.inr (Or.inr (Or.inl ⟨hview, rfl, ?_⟩)), nofun⟩
        rcases hk.survives h.queues h1.queues keyHash with hn | he
        · exact hn
        · exact he.trans hview
      | some a =>
        have hseq : z₁.ownerSeq = z.ownerSeq := (h.allocNode rb hr).2.ownerSeq
        obtain ⟨h2, hfr, hv⟩ := h.counterAlloc rb hl hr
          (fun n => { counterNode n keyHash hash now with
            refreshing := false
            refreshLockUntil := 0
            refreshOwner := 0
            missCount := 1
            l2NegUntil := 0 }) z₁ rfl hseq.ge rfl rfl rfl rfl
        exact ⟨h2, hfr, Or.inr (Or.inr (Or.inr ⟨hview, rfl, hv⟩)), nofun⟩

theorem Wf.countMiss (h : Wf held pending [] [] [] z) (keyHash : KeyHash) (hash : UInt32)
    (now : Time) (minUses : ℤ) (window : Time) :
    let r := Shm.countMiss rb z keyHash hash now minUses window
    Wf held pending [] [] [] r.1 ∧ Framed keyHash z r.1 ∧ CountEffect z keyHash now minUses r.1 r.2 := by
  obtain ⟨h1, h2, h3, -⟩ := h.countMissLocked rb keyHash hash minUses window now
  exact ⟨h1, h2, h3⟩

/-- What `shm_resolve_miss` does: the miss count, and after it the claim unless
the count declined. -/
def ResolveEffect (z : Zone) (keyHash : KeyHash) (now : Time) (minUses : ℤ) (lockTtl : Time)
    (z' : Zone) (rc : Rc) (answer : ClaimAnswer) : Prop :=
  ∃ z₁, CountEffect z keyHash now minUses z₁ rc ∧ z₁.ownerSeq = z.ownerSeq ∧
    ((rc = .declined ∧ z' = z₁ ∧ answer = ⟨.winner, 0, none, 0⟩) ∨
      rc ≠ .declined ∧ ClaimEffect z₁ keyHash now lockTtl z' answer)

/-- Counting a miss grants nothing. -/
theorem ownerSeq_countMissLocked (h : Wf held pending [] [] [] z) (keyHash : KeyHash)
    (hash : UInt32) (minUses : ℤ) (window now : Time) (ctn : Option Addr) :
    (Shm.countMissLocked rb z keyHash hash minUses window ctn now).1.ownerSeq = z.ownerSeq := by
  unfold Shm.countMissLocked
  cases ctn with
  | some a =>
    dsimp only
    split_ifs <;> rfl
  | none =>
    dsimp only
    cases hr : Shm.allocEvict rb z now sizeofNode with
    | mk z₁ p =>
      cases p with
      | none => exact (h.allocEvict_none rb hr).2.ownerSeq
      | some a => exact (h.allocNode rb hr).2.ownerSeq

/-- After the count the merged function has the node in hand that a lookup finds. -/
theorem lookup_after_count (h : Wf held pending [] [] [] z) (keyHash : KeyHash) (hash : UInt32)
    (minUses : ℤ) (window now : Time) :
    let z₁ := (countMissLocked rb z keyHash hash minUses window (lookup z keyHash) now).1
    (lookup z keyHash).or (lookup z₁ keyHash) = lookup z₁ keyHash := by
  obtain ⟨-, -, -, hkeep⟩ := h.countMissLocked rb keyHash hash minUses window now
  cases hl : lookup z keyHash with
  | none => rfl
  | some a =>
    rw [hl] at hkeep
    exact (hkeep a rfl).symm

/-- **`shm_resolve_miss`**. -/
theorem Wf.resolveMiss (h : Wf held pending [] [] [] z) (keyHash : KeyHash) (hash : UInt32)
    (now : Time) (minUses : ℤ) (window lockTtl : Time) :
    let r := Shm.resolveMiss rb z keyHash hash now minUses window lockTtl
    Wf (r.2.2.freshData.toList ++ held) pending [] [] [] r.1 ∧ Framed keyHash z r.1 ∧
      ResolveEffect z keyHash now minUses lockTtl r.1 r.2.1 r.2.2 := by
  obtain ⟨h1, hfr, heff, -⟩ := h.countMissLocked rb keyHash hash minUses window now
  have hctn := lookup_after_count rb h keyHash hash minUses window now
  have hseq := ownerSeq_countMissLocked rb h keyHash hash minUses window now (lookup z keyHash)
  unfold Shm.resolveMiss
  dsimp only
  cases hr : Shm.countMissLocked rb z keyHash hash minUses window (lookup z keyHash) now with
  | mk z₁ rc =>
    rw [hr] at h1 hfr heff hctn hseq
    obtain ⟨h2, hfr', heff'⟩ := h1.claimLocked rb hash keyHash lockTtl now true
    cases rc with
    | declined => exact ⟨h1, hfr, z₁, heff, hseq, Or.inl ⟨rfl, rfl, rfl⟩⟩
    | ok | error | again =>
      dsimp only
      rw [hctn]
      exact ⟨h2, hfr.trans hfr', z₁, heff, hseq, Or.inr ⟨nofun, heff'⟩⟩

/-! ### Ending a lease -/

/-- The core after its lease was given back. -/
def Core.unleased (c : Core) : Core :=
  { c with refreshing := false, refreshOwner := 0, refreshLockUntil := 0 }

/-- What `shm_unstub` leaves under its digest: nothing changes unless a counter or
an entry holds a lease with this very token. -/
def UnstubEffect (z : Zone) (keyHash : KeyHash) (owner : ℕ) (now : Time) (z' : Zone) : Prop :=
  (z' = z ∧ ∀ c, view z keyHash = some c → c.kind ≠ .marker → c.refreshing = true →
    c.refreshOwner = owner → owner = 0) ∨ ∃ c, view z keyHash = some c ∧ c.kind ≠ .marker ∧ c.refreshing = true ∧
    c.refreshOwner = owner ∧ owner ≠ 0 ∧
    (view z' keyHash = some c.unleased ∨
      c.kind = .counter ∧ c.missCount = 0 ∧ c.l2NegUntil ≤ now ∧ view z' keyHash = none)

/-- **`shm_unstub`**. -/
theorem Wf.unstub (h : Wf held pending [] [] [] z) (keyHash : KeyHash) (owner : ℕ) (now : Time) :
    let z' := Shm.unstub rb z keyHash owner now
    Wf held pending [] [] [] z' ∧ Framed keyHash z z' ∧ UnstubEffect z keyHash owner now z' := by
  have hfr := Framed.refl h.queues keyHash
  unfold Shm.unstub
  by_cases howner : owner = 0
  · rw [if_pos howner]
    exact ⟨h, hfr, Or.inl ⟨rfl, fun _ _ _ _ _ => howner⟩⟩
  rw [if_neg howner]
  cases hl : lookup z keyHash with
  | none =>
    refine ⟨h, hfr, Or.inl ⟨rfl, fun c hc => ?_⟩⟩
    rw [view_none hl] at hc
    cases hc
  | some a =>
    have hview : view z keyHash = some (z.mem a).core := view_lookup hl
    obtain ⟨ha, hk⟩ := h.queues.lookup_resident hl
    dsimp only
    by_cases hheld : ((z.mem a).kind = .counter ∨ (z.mem a).kind = .entry) ∧
        (z.mem a).refreshing = true ∧ (z.mem a).refreshOwner = owner
    · rw [if_pos hheld]
      obtain ⟨hkind, href, hown⟩ := hheld
      have hmarker : (z.mem a).kind ≠ .marker := by
        rcases hkind with hc | hc <;> rw [hc] <;> exact nofun
      set clear : Node → Node := fun n =>
        { n with refreshing := false, refreshLockUntil := 0, refreshOwner := 0 } with hclear
      obtain ⟨h1, hfr₁, hv⟩ := h.write hl (f := clear) rfl
      by_cases hgone : (z.mem a).kind = .counter ∧ (z.mem a).missCount = 0 ∧
          (z.mem a).l2NegUntil ≤ now
      · rw [if_pos hgone]
        set z₁ := z.setNode a clear with hz₁
        have ha₁ : a ∈ z₁.resident := ha
        have hdata : (z₁.mem a).data = none := by
          have hok := h.queues.shape a ha
          unfold NodeOk at hok
          rw [if_pos hgone.1] at hok
          rw [hz₁, setNode_mem_self]
          exact hok.1
        have h2 := (h1.unlink ha₁).delete rb
        rw [hdata] at h2
        have h3 := h2.freeNode
        set z₂ := rbtreeDelete rb
          { lruUnlink z₁ a with nEntries := (lruUnlink z₁ a).nEntries - 1 } a with hz₂
        have hlinks := links_freeLocked z₂ a sizeofNode
        have hk2 : Kept none (lruUnlink z₁ a) z₂ := Kept.of_subset (fun _ hb => hb) rfl rfl
        have hkept : Kept none z₁ (freeLocked z₂ a sizeofNode) :=
          ((Kept.unlink z₁ a).trans hk2).trans (.of_links hlinks (rest_freeLocked z₂ a sizeofNode))
        refine ⟨h3, hfr₁.trans (hkept.framed h1.queues h3.queues nofun),
          Or.inr ⟨_, hview, hmarker, href, hown, howner, Or.inr ⟨hgone.1, hgone.2.1, hgone.2.2, ?_⟩⟩⟩
        have hl₁ : lookup z₁ keyHash = some a := (lookup_setNode h a (f := clear) rfl keyHash).trans hl
        refine view_erased h1.queues h3.queues hl₁ ?_ fun b => ?_
        · rw [resident_of_links hlinks]
          exact h1.queues.resident_unlink a
        · have hmem : (freeLocked z₂ a sizeofNode).mem = z₂.mem :=
            congrArg (fun l => l.2.2.2.2.2) hlinks
          rw [hmem]
          rfl
      · rw [if_neg hgone]
        exact ⟨h1, hfr₁, Or.inr ⟨_, hview, hmarker, href, hown, howner, Or.inl hv⟩⟩
    · rw [if_neg hheld]
      refine ⟨h, hfr, Or.inl ⟨rfl, fun c hc hm href hown => absurd ?_ hheld⟩⟩
      rw [hview] at hc
      obtain rfl := Option.some.inj hc
      refine ⟨?_, href, hown⟩
      cases hk : (z.mem a).kind with
      | counter => exact Or.inl rfl
      | entry => exact Or.inr rfl
      | marker => exact absurd hk hm

/-! ### The negative memo and the pending mark -/

/-- Consulting the memo may touch the node and changes no core. -/
theorem Wf.l2NegCheck (h : Wf held pending [] [] [] z) (keyHash : KeyHash) (hash : UInt32)
    (now : Time) :
    let r := Shm.l2NegCheck z keyHash hash now
    Wf held pending [] [] [] r.1 ∧ Kept none z r.1 ∧ r.1.resident.Perm z.resident := by
  have hsame : Wf held pending [] [] [] z ∧ Kept none z z ∧ z.resident.Perm z.resident :=
    ⟨h, Kept.refl _ _, List.Perm.refl _⟩
  unfold Shm.l2NegCheck
  cases hl : lookup z keyHash with
  | none => exact hsame
  | some a =>
    obtain ⟨ha, -⟩ := h.queues.lookup_resident hl
    dsimp only
    split_ifs
    · exact h.touchLru ha now 0 hash
    · exact hsame

theorem Wf.varidxPendingSet (h : Wf held pending [] [] [] z) (keyHash : KeyHash) (mark : Bool) :
    let z' := Shm.varidxPendingSet z keyHash mark
    Wf held pending [] [] [] z' ∧ Kept none z z' ∧ z'.resident.Perm z.resident := by
  have hsame : Wf held pending [] [] [] z ∧ Kept none z z ∧ z.resident.Perm z.resident :=
    ⟨h, Kept.refl _ _, List.Perm.refl _⟩
  unfold Shm.varidxPendingSet
  cases hl : lookup z keyHash with
  | none => exact hsame
  | some a =>
    dsimp only
    split_ifs
    · exact ⟨h.setNode_same a (f := fun n => { n with varidxPending := mark }) rfl,
        Kept.setNode_core z a (f := fun n => { n with varidxPending := mark }) rfl rfl,
        List.Perm.refl _⟩
    · exact hsame

/-- What arming the memo leaves under its digest. -/
def L2NegEffect (z : Zone) (keyHash : KeyHash) (now ttl : Time) (z' : Zone) : Prop :=
  (z' = z ∧ ∃ c, view z keyHash = some c ∧ c.kind ≠ .counter) ∨
    (∃ c, view z keyHash = some c ∧ c.kind = .counter ∧
      view z' keyHash = some { c with l2NegUntil := now + ttl }) ∨
    view z keyHash = none ∧
      (view z' keyHash = none ∨ view z' keyHash = some { counterCore with l2NegUntil := now + ttl })

theorem Wf.l2NegSet (h : Wf held pending [] [] [] z) (keyHash : KeyHash) (hash : UInt32)
    (now ttl : Time) :
    let z' := Shm.l2NegSet rb z keyHash hash now ttl
    Wf held pending [] [] [] z' ∧ Framed keyHash z z' ∧ L2NegEffect z keyHash now ttl z' := by
  unfold Shm.l2NegSet
  cases hl : lookup z keyHash with
  | some a =>
    have hview : view z keyHash = some (z.mem a).core := view_lookup hl
    dsimp only
    split_ifs with hkind
    · refine ⟨h, Framed.refl h.queues keyHash, Or.inl ⟨rfl, _, hview, ?_⟩⟩
      show (z.mem a).kind ≠ .counter
      rcases hkind with hc | hc <;> rw [hc] <;> exact nofun
    · obtain ⟨h1, hfr, hv⟩ := h.write hl (f := fun n => { n with l2NegUntil := now + ttl }) rfl
      refine ⟨h1, hfr, Or.inr (Or.inl ⟨_, hview, ?_, hv⟩)⟩
      show (z.mem a).kind = .counter
      obtain ⟨he, hm⟩ := not_or.1 hkind
      cases hc : (z.mem a).kind with
      | entry => exact absurd hc he
      | counter => rfl
      | marker => exact absurd hc hm
  | none =>
    have hview : view z keyHash = none := view_none hl
    dsimp only
    cases hr : Shm.allocEvict rb z now sizeofNode with
    | mk z₁ p =>
      cases p with
      | none =>
        obtain ⟨h1, hev⟩ := h.allocEvict_none rb hr
        have hk : Kept none z z₁ := .of_evicts hev
        refine ⟨h1, hk.framed h.queues h1.queues nofun, Or.inr (Or.inr ⟨hview, Or.inl ?_⟩)⟩
        rcases hk.survives h.queues h1.queues keyHash with hn | he
        · exact hn
        · exact he.trans hview
      | some a =>
        have hseq : z₁.ownerSeq = z.ownerSeq := (h.allocNode rb hr).2.ownerSeq
        obtain ⟨h2, hfr, hv⟩ := h.counterAlloc rb hl hr
          (fun n => { counterNode n keyHash hash now with
            refreshing := false
            refreshLockUntil := 0
            refreshOwner := 0
            missCount := 0
            l2NegUntil := now + ttl }) z₁ rfl hseq.ge rfl rfl rfl rfl
        exact ⟨h2, hfr, Or.inr (Or.inr ⟨hview, Or.inr hv⟩)⟩

/-! ### The lookup of a request -/

/-- The references an L1 lookup hands out. -/
def L1Verdict.pins : L1Verdict → List BlobId
  | .hit body | .stale body | .refresh body => body.toList
  | .expired armed => armed
  | .miss | .error | .regenerate => []

/-- What an L1 lookup leaves under its digest: only the stale refresh writes. -/
def L1Effect (z : Zone) (keyHash : KeyHash) (now lockTtl : Time) (z' : Zone) (verdict : L1Verdict) :
    Prop :=
  match verdict with
  | .refresh body => ∃ c, view z keyHash = some c ∧ ¬ c.Live now ∧ body = c.data ∧
      view z' keyHash = some { c with refreshing := true, refreshLockUntil := now + lockTtl }
  | _ => view z' = view z

theorem pinData_lookup (z : Zone) (data : Option BlobId) (keyHash : KeyHash) :
    lookup (Shm.pinData z data) keyHash = lookup z keyHash := by
  cases data <;> rfl

theorem pinData_resident (z : Zone) (data : Option BlobId) :
    (Shm.pinData z data).resident = z.resident := by
  cases data <;> rfl

theorem pinData_mem (z : Zone) (data : Option BlobId) : (Shm.pinData z data).mem = z.mem := by
  cases data <;> rfl

/-- The stale hit of a request. -/
theorem Wf.serveStale (h : Wf held pending [] [] [] z) {keyHash : KeyHash} {a : Addr}
    (hl : lookup z keyHash = some a) (hash : UInt32) (now : Time) (q : L1Req) :
    let r := Shm.serveStale z a hash now q
    Wf (r.2.pins ++ held) pending [] [] [] r.1 ∧ Framed keyHash z r.1 ∧
      L1Effect z keyHash now q.lockTtl r.1 r.2 := by
  obtain ⟨ha, -⟩ := h.queues.lookup_resident hl
  obtain ⟨h1, hk1, hp1⟩ := h.touchLru ha now q.protectedPct hash
  unfold Shm.serveStale
  dsimp only
  set z₁ := Shm.touchLru z a now q.protectedPct hash with hz₁
  have ha₁ : a ∈ z₁.resident := hp1.mem_iff.2 ha
  have hl₁ : lookup z₁ keyHash = some a :=
    (hk1.lookup_eq hp1 h.queues h1.queues keyHash).trans hl
  have hview₁ : view z₁ = view z := hk1.view_eq hp1 h.queues h1.queues
  have hfr₁ : Framed keyHash z z₁ := hk1.framed h.queues h1.queues nofun
  have hpin := h1.pinData ha₁
  have hfrp : Framed keyHash z (Shm.pinData z₁ (z₁.mem a).data) :=
    hfr₁.trans ((Kept.pin z₁ _).framed h1.queues hpin.queues nofun)
  have hviewp : view (Shm.pinData z₁ (z₁.mem a).data) = view z := (view_pinData z₁ _).trans hview₁
  by_cases hlock : q.lockResult = some .ok ∨ q.lockResult = some .error
  · rw [if_pos hlock]
    cases q.backgroundUpdate with
    | false => exact ⟨h1, hfr₁, hview₁⟩
    | true =>
      cases q.cleanupOk with
      | false => exact ⟨h1, hfr₁, hview₁⟩
      | true => exact ⟨hpin, hfrp, hviewp⟩
  · rw [if_neg hlock]
    by_cases hfree : q.lockResult = none ∧
        ((z₁.mem a).refreshing = false ∨ now ≥ (z₁.mem a).refreshLockUntil) ∧ q.dice = true
    · rw [if_pos hfree]
      cases q.cleanupOk with
      | false => exact ⟨h1, hfr₁, hview₁⟩
      | true =>
        set z₂ := Shm.pinData z₁ (z₁.mem a).data with hz₂
        have hmem₂ : z₂.mem a = z₁.mem a := by rw [hz₂, pinData_mem]
        have hl₂ : lookup z₂ keyHash = some a := (pinData_lookup _ _ _).trans hl₁
        obtain ⟨h3, hfr₃, hv₃⟩ := hpin.write hl₂ (f := fun n => { n with
          refreshing := true, refreshLockUntil := now + q.lockTtl }) rfl
        refine ⟨h3, hfrp.trans hfr₃, (z₁.mem a).core, ?_, ?_, rfl, ?_⟩
        · rw [← hview₁]
          exact view_lookup hl₁
        · rintro ⟨hr, hlt⟩
          rcases hfree.2.1 with hf | hge
          · exact Bool.false_ne_true (hf.symm.trans hr)
          · exact absurd hlt (Int.not_lt.2 hge)
        · rw [← hmem₂]
          exact hv₃
    · rw [if_neg hfree]
      exact ⟨hpin, hfrp, hviewp⟩

/-- The breaker snapshot and the stale-if-error snapshot of an expired entry. -/
theorem Wf.armSnapshots (h : Wf held pending [] [] [] z) {a : Addr} (ha : a ∈ z.resident)
    (now : Time) (q : L1Req) :
    let r := Shm.armSnapshots z a now q
    Wf (r.2.pins ++ held) pending [] [] [] r.1 ∧ Kept none z r.1 ∧ view r.1 = view z ∧
      ∃ armed, r.2 = .expired armed := by
  unfold Shm.armSnapshots
  cases hd : (z.mem a).data with
  | none => exact ⟨h, Kept.refl _ _, rfl, [], rfl⟩
  | some b =>
    dsimp only
    by_cases hlen : (z.mem a).len = 0
    · rw [if_pos hlen]
      exact ⟨h, Kept.refl _ _, rfl, [], rfl⟩
    rw [if_neg hlen]
    -- either snapshot is one acquire of the body of the queued node
    have hacq : ∀ {z' : Zone} {pins : List BlobId}, Wf (pins ++ held) pending [] [] [] z' →
        z'.links = z.links → Wf (b :: pins ++ held) pending [] [] [] (blobAcquire z' b) := by
      intro z' pins h' hlinks
      have hmem : z'.mem = z.mem := congrArg (fun l => l.2.2.2.2.2) hlinks
      exact h'.acquire (a := a) (resident_of_links hlinks ▸ ha) (by rw [hmem]; exact hd)
    obtain ⟨z₁, pins, hr, h1, hl1, hk1⟩ : ∃ z₁ pins,
        (if q.brkArm then (blobAcquire z b, [b]) else (z, [])) = (z₁, pins) ∧
        Wf (pins ++ held) pending [] [] [] z₁ ∧ z₁.links = z.links ∧ Kept none z z₁ := by
      cases q.brkArm with
      | false => exact ⟨z, [], rfl, h, rfl, Kept.refl _ _⟩
      | true => exact ⟨blobAcquire z b, [b], rfl, @hacq z [] h rfl, rfl, Kept.acquire z b⟩
    rw [hr]
    dsimp only
    have hread : z₁.access b = z₁ := by
      have hmem : z₁.mem = z.mem := congrArg (fun l => l.2.2.2.2.2) hl1
      exact Heap.access_eq (h1.own_live (a := a) (resident_of_links hl1 ▸ ha)
        (by rw [hmem]; exact hd))
    rw [hread, ite_self]
    split_ifs
    · exact ⟨hacq h1 hl1, hk1.trans (Kept.acquire z₁ b), view_of_links hl1, _, rfl⟩
    · exact ⟨h1, hk1, view_of_links hl1, _, rfl⟩

/-- **The L1 lookup of a request**, under one hold of the mutex. -/
theorem Wf.accessL1 (h : Wf held pending [] [] [] z) (keyHash : KeyHash) (hash : UInt32)
    (now : Time) (q : L1Req) :
    let r := Shm.accessL1 z keyHash hash now q
    Wf (r.2.pins ++ held) pending [] [] [] r.1 ∧ Framed keyHash z r.1 ∧
      L1Effect z keyHash now q.lockTtl r.1 r.2 := by
  unfold Shm.accessL1
  cases hl : lookup z keyHash with
  | none => exact ⟨h, Framed.refl h.queues keyHash, rfl⟩
  | some a =>
    obtain ⟨ha, -⟩ := h.queues.lookup_resident hl
    dsimp only
    set mark : Node → Node := fun n => { n with varidxPending := false } with hmark
    have h1 : Wf held pending [] [] [] (z.setNode a mark) := h.setNode_same a rfl
    have hk1 : Kept none z (z.setNode a mark) := Kept.setNode_core z a rfl rfl
    have hv1 : view (z.setNode a mark) = view z :=
      hk1.view_eq (List.Perm.refl _) h.queues h1.queues
    by_cases hhit : q.brkOnly = false ∧ q.revalidate = false ∧ now < (z.mem a).freshUntil ∧
        q.freshOk = true
    · rw [if_pos hhit]
      set z₁ := z.setNode a mark with hz₁
      have hdata : (z₁.mem a).data = (z.mem a).data := by rw [hz₁, setNode_mem_self]
      have h2 := h1.pinData (a := a) ha
      rw [hdata] at h2
      set z₂ := Shm.pinData z₁ (z.mem a).data with hz₂
      have hres₂ : z₂.resident = z₁.resident := pinData_resident z₁ (z.mem a).data
      have ha₂ : a ∈ z₂.resident := hres₂ ▸ ha
      obtain ⟨h3, hk3, hp3⟩ := h2.touchLru ha₂ now q.protectedPct hash
      refine ⟨h3, ((hk1.trans (Kept.pin z₁ _)).trans hk3).framed h.queues h3.queues nofun, ?_⟩
      show view (Shm.touchLru z₂ a now q.protectedPct hash) = view z
      rw [hk3.view_eq hp3 h2.queues h3.queues, hz₂, view_pinData, hv1]
    · rw [if_neg hhit]
      split
      next => exact h.serveStale hl hash now q
      next =>
        obtain ⟨h2, hk2, hv2, armed, hverdict⟩ := h1.armSnapshots (a := a) ha now q
        refine ⟨h2, (hk1.trans hk2).framed h.queues h2.queues nofun, ?_⟩
        rw [hverdict]
        exact hv2.trans hv1

end Shm
end CacheTurbo
