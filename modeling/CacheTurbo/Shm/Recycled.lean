/-
# Recycled blocks

The slab does not clear a block that it hands out again, so a node starts as
whatever the block held, and each of the four places that make a node has to
write every field before the zone reads it: the create path of `shm_store_locked`,
the lease stub of `shm_claim_locked`, the counter of `shm_count_miss_locked` and
the memo node of `shm_l2_neg_set`.  `blob_alloc` does the same for a header.

The functions that make a node are given here over any allocator of node blocks
(`storeLockedOver`, `claimLockedOver`, ...).  Over `allocEvict` they are the
functions themselves (`execOver_allocEvict`); over `recycledBlock old` the block
handed out after the `n`-th answer of the slab holds `old n`, which makes the old
bytes of every allocation a free choice.  A body keeps the serial number of its
allocation, so the bodies of the fresh zone are the old bytes of theirs.

`Alike.execOver` says that one operation over recycled blocks answers what it
answers over clean ones and leaves zones that are alike; with the reads and the
lock-free releases of requests in between, `old_bytes_unread` is the run result:
two runs over any old bytes cannot be told apart.
-/

import CacheTurbo.Shm.Alike
import CacheTurbo.Shm.Lifetime

namespace CacheTurbo
namespace Shm

/-! ## The code over an allocator of node blocks -/

section Over

variable (rb : Rbtree) (alloc : Zone → Time → Zone × Option Addr)

/-- The create path of `shm_store_locked`. -/
def storeCreateOver (z : Zone) (keyHash : KeyHash) (hash : UInt32) (now : Time)
    (data : List UInt8) (freshTtl staleTtl : Time) : Zone × Rc × Option Addr :=
  match shmAdmit z hash with
  | (z, false) => (z, .declined, none)
  | (z, true) =>
      match alloc z now with
      | (z, none) => (z, .error, none)
      | (z, some ctn) =>
          match blobAlloc rb z now data with
          | (z, none) => (freeLocked z ctn sizeofNode, .error, none)
          | (z, some body) =>
              let z := createNode rb z ctn fun n => { n with
                key := keyHash
                kind := .entry
                data := some body
                len := data.length
                freshUntil := now + freshTtl
                staleUntil := if staleTtl ≠ 0 then now + staleTtl else 0
                refreshing := false
                refreshLockUntil := 0
                refreshOwner := 0
                missCount := 0
                l2NegUntil := 0
                lastAccess := now
                promotable := false
                hashCrc32 := hash }
              (z, .ok, some ctn)

/-- `ngx_http_cache_turbo_shm_store_locked`. -/
def storeLockedOver (z : Zone) (keyHash : KeyHash) (hash : UInt32) (now : Time)
    (data : List UInt8) (freshTtl staleTtl : Time) (ctn : Option Addr) : Zone × Rc × Option Addr :=
  match ctn.or (lookup z keyHash) with
  | some ctn => storeRefresh rb z now data freshTtl staleTtl ctn
  | none => storeCreateOver rb alloc z keyHash hash now data freshTtl staleTtl

/-- `ngx_http_cache_turbo_shm_store`. -/
def storeOver (z : Zone) (keyHash : KeyHash) (hash : UInt32) (now : Time) (data : List UInt8)
    (freshTtl staleTtl : Time) (wanted : Bool) : Zone × Rc × Option BlobId :=
  pinWritten wanted (storeLockedOver rb alloc z keyHash hash now data freshTtl staleTtl none)

/-- `ngx_http_cache_turbo_shm_store_marker`. -/
def storeMarkerOver (z : Zone) (keyHash : KeyHash) (hash : UInt32) (now : Time)
    (data : List UInt8) (freshTtl staleTtl : Time) : Zone × Rc :=
  let ctn := lookup z keyHash
  let wasMarker := ctn.any fun a => (z.mem a).kind == .marker
  match storeLockedOver rb alloc z keyHash hash now data freshTtl staleTtl ctn with
  | (z, .ok, some written) =>
      let z := z.setNode written fun n => { n with kind := .marker }
      (if wasMarker then z else { z with markers := z.markers + 1 }, .ok)
  | (z, rc, _) => (z, rc)

/-- `ngx_http_cache_turbo_shm_store_if`. -/
def storeIfOver (z : Zone) (keyHash : KeyHash) (hash : UInt32) (now : Time) (data : List UInt8)
    (freshTtl staleTtl : Time) (predicate : StoreIf) (wanted : Bool) :
    Zone × Rc × Option BlobId :=
  let ctn := lookup z keyHash
  if storeIfRefuses z ctn now freshTtl predicate then (z, .declined, none)
  else pinWritten wanted
    (storeLockedOver rb alloc z keyHash hash now data freshTtl staleTtl ctn)

/-- `ngx_http_cache_turbo_shm_claim_locked`. -/
def claimLockedOver (z : Zone) (hash : UInt32) (keyHash : KeyHash) (lockTtl : Time)
    (ctn : Option Addr) (now : Time) (pin : Bool) : Zone × ClaimAnswer :=
  match ctn with
  | some ctn => claimLocked rb z hash keyHash lockTtl (some ctn) now pin
  | none =>
      match alloc z now with
      | (z, none) => (z, ⟨.winner, 0, none, 0⟩)
      | (z, some ctn) =>
          let owner := z.ownerSeq + 1
          let z := { z with ownerSeq := owner }
          (createNode rb z ctn fun n => { counterNode n keyHash hash now with
            refreshing := true
            refreshLockUntil := now + lockTtl
            refreshOwner := owner
            missCount := 0
            l2NegUntil := 0 }, ⟨.winner, owner, none, 0⟩)

/-- `ngx_http_cache_turbo_shm_claim`. -/
def claimOver (z : Zone) (keyHash : KeyHash) (hash : UInt32) (now lockTtl : Time) :
    Zone × ClaimAnswer :=
  claimLockedOver rb alloc z hash keyHash lockTtl (lookup z keyHash) now false

/-- `ngx_http_cache_turbo_shm_count_miss_locked`. -/
def countMissLockedOver (z : Zone) (keyHash : KeyHash) (hash : UInt32) (minUses : ℤ)
    (minUsesWindow : Time) (ctn : Option Addr) (now : Time) : Zone × Rc :=
  match ctn with
  | some ctn => countMissLocked rb z keyHash hash minUses minUsesWindow (some ctn) now
  | none =>
      match alloc z now with
      | (z, none) => (z, .ok)
      | (z, some ctn) =>
          (createNode rb z ctn fun n => { counterNode n keyHash hash now with
            refreshing := false
            refreshLockUntil := 0
            refreshOwner := 0
            missCount := 1
            l2NegUntil := 0 }, if minUses ≤ 1 then .ok else .declined)

/-- `ngx_http_cache_turbo_shm_count_miss`. -/
def countMissOver (z : Zone) (keyHash : KeyHash) (hash : UInt32) (now : Time) (minUses : ℤ)
    (minUsesWindow : Time) : Zone × Rc :=
  countMissLockedOver rb alloc z keyHash hash minUses minUsesWindow (lookup z keyHash) now

/-- `ngx_http_cache_turbo_shm_resolve_miss`. -/
def resolveMissOver (z : Zone) (keyHash : KeyHash) (hash : UInt32) (now : Time) (minUses : ℤ)
    (minUsesWindow lockTtl : Time) : Zone × Rc × ClaimAnswer :=
  let ctn := lookup z keyHash
  match countMissLockedOver rb alloc z keyHash hash minUses minUsesWindow ctn now with
  | (z, .declined) => (z, .declined, ⟨.winner, 0, none, 0⟩)
  | (z, rc) =>
      let ctn := ctn.or (lookup z keyHash)
      let r := claimLockedOver rb alloc z hash keyHash lockTtl ctn now true
      (r.1, rc, r.2)

/-- `ngx_http_cache_turbo_shm_l2_neg_set`. -/
def l2NegSetOver (z : Zone) (keyHash : KeyHash) (hash : UInt32) (now ttl : Time) : Zone :=
  match lookup z keyHash with
  | some ctn =>
      if (z.mem ctn).kind = .entry ∨ (z.mem ctn).kind = .marker then z
      else z.setNode ctn fun n => { n with l2NegUntil := now + ttl }
  | none =>
      match alloc z now with
      | (z, none) => z
      | (z, some ctn) =>
          createNode rb z ctn fun n => { counterNode n keyHash hash now with
            refreshing := false
            refreshLockUntil := 0
            refreshOwner := 0
            missCount := 0
            l2NegUntil := now + ttl }

/-- One operation; those that make no node are the operations themselves. -/
def execOver (z : Zone) (now : Time) : ZoneOp → Zone × Answer
  | .store k hash data freshTtl staleTtl wanted =>
      let r := storeOver rb alloc z k hash now data freshTtl staleTtl wanted
      (r.1, .stored r.2.1 r.2.2)
  | .storeIf k hash data freshTtl staleTtl predicate wanted =>
      let r := storeIfOver rb alloc z k hash now data freshTtl staleTtl predicate wanted
      (r.1, .stored r.2.1 r.2.2)
  | .storeMarker k hash data freshTtl staleTtl =>
      let r := storeMarkerOver rb alloc z k hash now data freshTtl staleTtl
      (r.1, .code r.2)
  | .claim k hash lockTtl =>
      let r := claimOver rb alloc z k hash now lockTtl
      (r.1, .claimed r.2)
  | .countMiss k hash minUses window =>
      let r := countMissOver rb alloc z k hash now minUses window
      (r.1, .code r.2)
  | .resolveMiss k hash minUses window lockTtl =>
      let r := resolveMissOver rb alloc z k hash now minUses window lockTtl
      (r.1, .resolved r.2.1 r.2.2)
  | .l2NegSet k hash ttl => (l2NegSetOver rb alloc z k hash now ttl, .done)
  | op => exec rb z now op

end Over

/-- **Over its own allocator the code is the code.** -/
theorem execOver_allocEvict (rb : Rbtree) (z : Zone) (now : Time) (op : ZoneOp) :
    execOver rb (fun z now => allocEvict rb z now sizeofNode) z now op = exec rb z now op := by
  cases op <;> rfl

/-! ## Old bytes in the blocks -/

section Old

variable (rb : Rbtree) (old : ℕ → Node)

/-- `shm_alloc_evict` for a node, where the block that the slab hands out holds old
bytes. -/
def recycledBlock (z : Zone) (now : Time) : Zone × Option Addr :=
  match allocEvict rb z now sizeofNode with
  | (z, some ctn) => (z.setNode ctn fun _ => old z.slab.asked, some ctn)
  | (z, none) => (z, none)

namespace Alike

variable {S : Set Addr} {z w : Zone} {held pending : List BlobId}

/-- Nothing reads a block outside the set. -/
theorem scribble (h : Alike S z w) {p : Addr} (hp : p ∉ S) (f : Node → Node) :
    Alike S z (w.setNode p f) where
  rest := by
    obtain ⟨m, β, rfl⟩ := h.refilled
    rfl
  mem a ha := by
    have hne : a ≠ p := fun he => hp (he ▸ ha)
    rw [setNode_mem_of_ne w hne]
    exact h.mem a ha
  blob := h.blob
  addr := h.addr
  data := h.data
  tree := h.tree
  queued := h.queued

/-- **A node block**: both slabs give the same one or none, and its bytes are the
only new difference. -/
theorem block (h : Alike S z w) (hwf : Wf held pending [] [] [] z) (now : Time) :
    (∃ z₁ w₁, Shm.allocEvict rb z now sizeofNode = (z₁, none) ∧
        recycledBlock rb old w now = (w₁, none) ∧ Alike S z₁ w₁) ∨
      ∃ z₁ w₁ p, Shm.allocEvict rb z now sizeofNode = (z₁, some p) ∧
        recycledBlock rb old w now = (w₁, some p) ∧ Alike (S \ {p}) z₁ w₁ := by
  obtain ⟨z₁, w₁, r, hz, hw, h₁⟩ := (h.allocEvict rb hwf now sizeofNode).split
  unfold recycledBlock
  cases r with
  | none => exact Or.inl ⟨z₁, w₁, hz, by rw [hw], h₁⟩
  | some p =>
    obtain ⟨hwf₁, -⟩ := hwf.allocNode rb hz
    have hout : ∀ a ∈ z₁.resident, a ∉ ({p} : Set Addr) := by
      rintro a ha rfl
      exact hwf₁.loose_not_resident ha
    have hless : Alike (S \ {p}) z₁ w₁ := by
      refine h₁.anti (fun _ ha => ha.1) (fun a ha => ⟨h₁.tree a ha, hout a ?_⟩)
        fun a ha => ⟨h₁.queued a ha, hout a ha⟩
      exact (hwf₁.queues.mem_tree.1 ha).resolve_right List.not_mem_nil
    exact Or.inr ⟨z₁, _, p, hz, by rw [hw], hless.scribble (fun hp => hp.2 rfl) _⟩

/-- The create path of `shm_store_locked` writes every field of its node. -/
theorem storeCreate (h : Alike S z w) (hwf : Wf held pending [] [] [] z) (keyHash : KeyHash)
    (hash : UInt32) (now : Time) (data : List UInt8) (freshTtl staleTtl : Time) :
    ∃ S', Agree S' (Shm.storeCreate rb z keyHash hash now data freshTtl staleTtl)
        (storeCreateOver rb (recycledBlock rb old) w keyHash hash now data freshTtl staleTtl) ∧
      ∀ a ∈ (Shm.storeCreate rb z keyHash hash now data freshTtl staleTtl).2.2, a ∈ S' := by
  obtain ⟨hwf₀, -⟩ := hwf.shmAdmit hash
  obtain ⟨z₀, w₀, admitted, hz₀, hw₀, h₀⟩ := (h.shmAdmit hash).split
  rw [hz₀] at hwf₀
  unfold Shm.storeCreate storeCreateOver
  rw [hz₀, hw₀]
  cases admitted with
  | false => exact ⟨S, ⟨h₀, rfl⟩, nofun⟩
  | true =>
    rcases h₀.block rb old hwf₀ now with ⟨z₁, w₁, hz₁, hw₁, h₁⟩ | ⟨z₁, w₁, p, hz₁, hw₁, h₁⟩
    · dsimp only
      rw [hz₁, hw₁]
      exact ⟨S, ⟨h₁, rfl⟩, nofun⟩
    · obtain ⟨hwf₁, -⟩ := hwf₀.allocNode rb hz₁
      obtain ⟨z₂, w₂, r, hz₂, hw₂, h₂⟩ := (h₁.blobAlloc rb hwf₁ now data).split
      dsimp only
      rw [hz₁, hw₁]
      dsimp only
      rw [hz₂, hw₂]
      cases r with
      | none => exact ⟨S \ {p}, ⟨h₂.freeLocked p sizeofNode, rfl⟩, nofun⟩
      | some body =>
        have hbody := body_lt rb hwf₁ hz₂
        refine ⟨insert p S, ⟨h₂.create rb (fun _ _ => rfl) fun _ b hb => ?_, rfl⟩, ?_⟩
        · obtain rfl := Option.some.inj hb
          exact hbody
        · rintro a ha
          obtain rfl := Option.some.inj ha
          exact Set.mem_insert _ _

/-- **`shm_store_locked`** answers the same over recycled blocks. -/
theorem storeLocked (h : Alike S z w) (hwf : Wf held pending [] [] [] z) (keyHash : KeyHash)
    (hash : UInt32) (now : Time) (data : List UInt8) (freshTtl staleTtl : Time)
    {ctn : Option Addr} (hctn : ctn = none ∨ ctn = Shm.lookup z keyHash) :
    ∃ S', Agree S' (Shm.storeLocked rb z keyHash hash now data freshTtl staleTtl ctn)
        (storeLockedOver rb (recycledBlock rb old) w keyHash hash now data freshTtl staleTtl ctn) ∧
      ∀ a ∈ (Shm.storeLocked rb z keyHash hash now data freshTtl staleTtl ctn).2.2, a ∈ S' := by
  have hor : ctn.or (Shm.lookup z keyHash) = Shm.lookup z keyHash := by
    rcases hctn with rfl | rfl
    · rfl
    · cases Shm.lookup z keyHash <;> rfl
  unfold Shm.storeLocked storeLockedOver
  rw [h.lookup, hor]
  cases hl : Shm.lookup z keyHash with
  | none => exact h.storeCreate rb old hwf keyHash hash now data freshTtl staleTtl
  | some a =>
    have ha := (hwf.queues.lookup_resident hl).1
    refine ⟨S, h.storeRefresh rb hwf ha now data freshTtl staleTtl, fun c hc => ?_⟩
    obtain ⟨-, ⟨he, -⟩ | ⟨he, -⟩⟩ := hwf.storeRefresh rb ha now data freshTtl staleTtl
    · dsimp only at hc
      rw [he] at hc
      cases hc
    · dsimp only at hc
      rw [he] at hc
      cases hc
      exact h.queued a ha

theorem store (h : Alike S z w) (hwf : Wf held pending [] [] [] z) (keyHash : KeyHash)
    (hash : UInt32) (now : Time) (data : List UInt8) (freshTtl staleTtl : Time) (wanted : Bool) :
    ∃ S', Agree S' (Shm.store rb z keyHash hash now data freshTtl staleTtl wanted)
      (storeOver rb (recycledBlock rb old) w keyHash hash now data freshTtl staleTtl wanted) := by
  obtain ⟨S', hagree, hmem⟩ := h.storeLocked rb old hwf keyHash hash now data freshTtl staleTtl
    (Or.inl rfl)
  exact ⟨S', pinWritten hagree wanted hmem⟩

theorem storeIf (h : Alike S z w) (hwf : Wf held pending [] [] [] z) (keyHash : KeyHash)
    (hash : UInt32) (now : Time) (data : List UInt8) (freshTtl staleTtl : Time)
    (predicate : StoreIf) (wanted : Bool) :
    ∃ S', Agree S' (Shm.storeIf rb z keyHash hash now data freshTtl staleTtl predicate wanted)
      (storeIfOver rb (recycledBlock rb old) w keyHash hash now data freshTtl staleTtl predicate
        wanted) := by
  unfold Shm.storeIf storeIfOver
  dsimp only
  rw [h.lookup, h.storeIfRefuses fun a ha => h.found ha]
  split_ifs
  · exact ⟨S, h, rfl⟩
  · obtain ⟨S', hagree, hmem⟩ := h.storeLocked rb old hwf keyHash hash now data freshTtl staleTtl
      (Or.inr rfl)
    exact ⟨S', pinWritten hagree wanted hmem⟩

theorem storeMarker (h : Alike S z w) (hwf : Wf held pending [] [] [] z) (keyHash : KeyHash)
    (hash : UInt32) (now : Time) (data : List UInt8) (freshTtl staleTtl : Time) :
    ∃ S', Agree S' (Shm.storeMarker rb z keyHash hash now data freshTtl staleTtl)
      (storeMarkerOver rb (recycledBlock rb old) w keyHash hash now data freshTtl staleTtl) := by
  have hwas : ((Shm.lookup z keyHash).any fun a => (w.mem a).kind == .marker) =
      (Shm.lookup z keyHash).any fun a => (z.mem a).kind == .marker := by
    cases hl : Shm.lookup z keyHash with
    | none => rfl
    | some a => rw [Option.any_some, Option.any_some, h.mem a (h.found hl)]
  obtain ⟨S', hagree, hmem⟩ := h.storeLocked rb old hwf keyHash hash now data freshTtl staleTtl
    (Or.inr rfl)
  obtain ⟨z₁, w₁, ⟨rc, written⟩, hz, hw, h₁⟩ := hagree.split
  rw [hz] at hmem
  unfold Shm.storeMarker storeMarkerOver
  dsimp only
  rw [h.lookup, hwas, hz, hw]
  cases rc with
  | declined | error | again => exact ⟨S', h₁, rfl⟩
  | ok =>
    cases written with
    | none => exact ⟨S', h₁, rfl⟩
    | some a =>
      have hset := h₁.setField (f := fun n => { n with kind := .marker }) (hmem a rfl) fun _ => rfl
      dsimp only
      split_ifs
      · exact ⟨S', hset, rfl⟩
      · refine ⟨S', hset.move ?_ rfl rfl rfl hset.tree hset.queued, rfl⟩
        obtain ⟨m, β, rfl⟩ := h₁.refilled
        rfl

/-- A claim or a count on a node that is there makes no node. -/
theorem claimFound (h : Alike S z w) {a : Addr} (ha : a ∈ S) (hash : UInt32) (keyHash : KeyHash)
    (lockTtl now : Time) (pin : Bool) :
    Agree S (Shm.claimLocked rb z hash keyHash lockTtl (some a) now pin)
      (Shm.claimLocked rb w hash keyHash lockTtl (some a) now pin) := by
  have hseq : w.ownerSeq = z.ownerSeq := by rw [h.rest]
  unfold Shm.claimLocked
  dsimp only
  rw [h.mem a ha, hseq]
  split_ifs
  · exact ⟨h.pinData (h.data a ha), rfl⟩
  · exact ⟨h, rfl⟩
  · exact ⟨h, rfl⟩
  · have htoken : Alike S { z with ownerSeq := z.ownerSeq + 1 }
        { w with ownerSeq := z.ownerSeq + 1 } := by
      refine h.move ?_ rfl rfl rfl h.tree h.queued
      obtain ⟨m, β, rfl⟩ := h.refilled
      rfl
    refine htoken.wrote ha ?_ _
    exact fun _ => rfl

theorem countFound (h : Alike S z w) {a : Addr} (ha : a ∈ S) (keyHash : KeyHash) (hash : UInt32)
    (minUses : ℤ) (window now : Time) :
    Agree S (Shm.countMissLocked rb z keyHash hash minUses window (some a) now)
      (Shm.countMissLocked rb w keyHash hash minUses window (some a) now) := by
  unfold Shm.countMissLocked
  dsimp only
  rw [h.mem a ha]
  by_cases hentry : (z.mem a).kind = .entry ∧ (z.mem a).len > 0
  · rw [if_pos hentry, if_pos hentry]
    exact ⟨h, rfl⟩
  rw [if_neg hentry, if_neg hentry]
  by_cases hlive : (z.mem a).refreshing ∧ now < (z.mem a).refreshLockUntil
  · rw [if_pos hlive, if_pos hlive]
    exact ⟨h, rfl⟩
  rw [if_neg hlive, if_neg hlive]
  refine h.wrote ha ?_ _
  exact fun _ => rfl

/-- The lease stub of `shm_claim_locked` writes every field of its node. -/
theorem claimLocked (h : Alike S z w) (hwf : Wf held pending [] [] [] z) (hash : UInt32)
    (keyHash : KeyHash) (lockTtl now : Time) (pin : Bool) :
    ∃ S', Agree S'
      (Shm.claimLocked rb z hash keyHash lockTtl (Shm.lookup z keyHash) now pin)
      (claimLockedOver rb (recycledBlock rb old) w hash keyHash lockTtl (Shm.lookup z keyHash) now
        pin) := by
  cases hl : Shm.lookup z keyHash with
  | some a => exact ⟨S, h.claimFound rb (h.found hl) hash keyHash lockTtl now pin⟩
  | none =>
    unfold Shm.claimLocked claimLockedOver
    rcases h.block rb old hwf now with ⟨z₁, w₁, hz₁, hw₁, h₁⟩ | ⟨z₁, w₁, p, hz₁, hw₁, h₁⟩
    · dsimp only
      rw [hz₁, hw₁]
      exact ⟨S, h₁, rfl⟩
    · have hseq : w₁.ownerSeq = z₁.ownerSeq := by rw [h₁.rest]
      have htoken : Alike (S \ {p}) { z₁ with ownerSeq := z₁.ownerSeq + 1 }
          { w₁ with ownerSeq := z₁.ownerSeq + 1 } := by
        refine h₁.move ?_ rfl rfl rfl h₁.tree h₁.queued
        obtain ⟨m, β, rfl⟩ := h₁.refilled
        rfl
      dsimp only
      rw [hz₁, hw₁]
      dsimp only
      rw [hseq]
      exact ⟨insert p S, htoken.createBare rb (fun _ _ => rfl) fun _ => rfl, rfl⟩

theorem claim (h : Alike S z w) (hwf : Wf held pending [] [] [] z) (keyHash : KeyHash)
    (hash : UInt32) (now lockTtl : Time) :
    ∃ S', Agree S' (Shm.claim rb z keyHash hash now lockTtl)
      (claimOver rb (recycledBlock rb old) w keyHash hash now lockTtl) := by
  unfold Shm.claim claimOver
  rw [h.lookup]
  exact h.claimLocked rb old hwf hash keyHash lockTtl now false

/-- The counter of `shm_count_miss_locked` writes every field of its node. -/
theorem countMissLocked (h : Alike S z w) (hwf : Wf held pending [] [] [] z) (keyHash : KeyHash)
    (hash : UInt32) (minUses : ℤ) (window now : Time) :
    ∃ S', Agree S'
      (Shm.countMissLocked rb z keyHash hash minUses window (Shm.lookup z keyHash) now)
      (countMissLockedOver rb (recycledBlock rb old) w keyHash hash minUses window
        (Shm.lookup z keyHash) now) := by
  cases hl : Shm.lookup z keyHash with
  | some a => exact ⟨S, h.countFound rb (h.found hl) keyHash hash minUses window now⟩
  | none =>
    unfold Shm.countMissLocked countMissLockedOver
    rcases h.block rb old hwf now with ⟨z₁, w₁, hz₁, hw₁, h₁⟩ | ⟨z₁, w₁, p, hz₁, hw₁, h₁⟩
    · dsimp only
      rw [hz₁, hw₁]
      exact ⟨S, h₁, rfl⟩
    · dsimp only
      rw [hz₁, hw₁]
      exact ⟨insert p S, h₁.createBare rb (fun _ _ => rfl) fun _ => rfl, rfl⟩

theorem countMiss (h : Alike S z w) (hwf : Wf held pending [] [] [] z) (keyHash : KeyHash)
    (hash : UInt32) (now : Time) (minUses : ℤ) (window : Time) :
    ∃ S', Agree S' (Shm.countMiss rb z keyHash hash now minUses window)
      (countMissOver rb (recycledBlock rb old) w keyHash hash now minUses window) := by
  unfold Shm.countMiss countMissOver
  rw [h.lookup]
  exact h.countMissLocked rb old hwf keyHash hash minUses window now

/-- **`shm_resolve_miss`**: the count, and the claim on what the count left. -/
theorem resolveMiss (h : Alike S z w) (hwf : Wf held pending [] [] [] z) (keyHash : KeyHash)
    (hash : UInt32) (now : Time) (minUses : ℤ) (window lockTtl : Time) :
    ∃ S', Agree S' (Shm.resolveMiss rb z keyHash hash now minUses window lockTtl)
      (resolveMissOver rb (recycledBlock rb old) w keyHash hash now minUses window lockTtl) := by
  obtain ⟨S₁, hcount⟩ := h.countMissLocked rb old hwf keyHash hash minUses window now
  obtain ⟨hwf₁, -⟩ := hwf.countMissLocked rb keyHash hash minUses window now
  have hctn := lookup_after_count rb hwf keyHash hash minUses window now
  obtain ⟨z₁, w₁, rc, hz, hw, h₁⟩ := hcount.split
  rw [hz] at hwf₁ hctn
  have hclaim := h₁.claimLocked rb old hwf₁ hash keyHash lockTtl now true
  unfold Shm.resolveMiss resolveMissOver
  dsimp only
  rw [h.lookup, hz, hw]
  cases rc with
  | declined => exact ⟨S₁, h₁, rfl⟩
  | ok | error | again =>
    dsimp only
    rw [h₁.lookup, hctn]
    obtain ⟨S₂, h₂, he⟩ := hclaim
    exact ⟨S₂, h₂, congrArg (Prod.mk _) he⟩

/-- The memo node of `shm_l2_neg_set` writes every field of its node. -/
theorem l2NegSet (h : Alike S z w) (hwf : Wf held pending [] [] [] z) (keyHash : KeyHash)
    (hash : UInt32) (now ttl : Time) :
    ∃ S', Alike S' (Shm.l2NegSet rb z keyHash hash now ttl)
      (l2NegSetOver rb (recycledBlock rb old) w keyHash hash now ttl) := by
  unfold Shm.l2NegSet l2NegSetOver
  rw [h.lookup]
  cases hl : Shm.lookup z keyHash with
  | some a =>
    dsimp only
    rw [h.mem a (h.found hl)]
    split_ifs
    · exact ⟨S, h⟩
    · refine ⟨S, h.setField (h.found hl) ?_⟩
      exact fun _ => rfl
  | none =>
    rcases h.block rb old hwf now with ⟨z₁, w₁, hz₁, hw₁, h₁⟩ | ⟨z₁, w₁, p, hz₁, hw₁, h₁⟩
    · dsimp only
      rw [hz₁, hw₁]
      exact ⟨S, h₁⟩
    · dsimp only
      rw [hz₁, hw₁]
      exact ⟨insert p S, h₁.createBare rb (fun _ _ => rfl) fun _ => rfl⟩

end Alike

/-! ## Operations and runs -/

/-- **One operation** over recycled blocks answers what it answers over clean ones. -/
theorem Alike.execOver {S : Set Addr} {z w : Zone} {held pending : List BlobId} (h : Alike S z w)
    (hwf : Wf held pending [] [] [] z) (now : Time) (op : ZoneOp) :
    ∃ S', Agree S' (exec rb z now op) (Shm.execOver rb (recycledBlock rb old) w now op) := by
  cases op with
  | store k hash data freshTtl staleTtl wanted =>
    obtain ⟨S', h', he⟩ := h.store rb old hwf k hash now data freshTtl staleTtl wanted
    exact ⟨S', h', congrArg (fun x : Rc × Option BlobId => Answer.stored x.1 x.2) he⟩
  | storeIf k hash data freshTtl staleTtl predicate wanted =>
    obtain ⟨S', h', he⟩ := h.storeIf rb old hwf k hash now data freshTtl staleTtl predicate wanted
    exact ⟨S', h', congrArg (fun x : Rc × Option BlobId => Answer.stored x.1 x.2) he⟩
  | storeMarker k hash data freshTtl staleTtl =>
    obtain ⟨S', h', he⟩ := h.storeMarker rb old hwf k hash now data freshTtl staleTtl
    exact ⟨S', h', congrArg Answer.code he⟩
  | freshen k freshTtl staleTtl =>
    obtain ⟨h', he⟩ := h.freshen k now freshTtl staleTtl
    exact ⟨S, h', congrArg Answer.code he⟩
  | claim k hash lockTtl =>
    obtain ⟨S', h', he⟩ := h.claim rb old hwf k hash now lockTtl
    exact ⟨S', h', congrArg Answer.claimed he⟩
  | countMiss k hash minUses window =>
    obtain ⟨S', h', he⟩ := h.countMiss rb old hwf k hash now minUses window
    exact ⟨S', h', congrArg Answer.code he⟩
  | resolveMiss k hash minUses window lockTtl =>
    obtain ⟨S', h', he⟩ := h.resolveMiss rb old hwf k hash now minUses window lockTtl
    exact ⟨S', h', congrArg (fun x : Rc × ClaimAnswer => Answer.resolved x.1 x.2) he⟩
  | owns k owner => exact ⟨S, h, congrArg Answer.flag (h.owns k owner)⟩
  | unstub k owner => exact ⟨S, h.unstub rb hwf k owner now, rfl⟩
  | l2NegCheck k hash =>
    obtain ⟨h', he⟩ := h.l2NegCheck k hash now
    exact ⟨S, h', congrArg Answer.code he⟩
  | l2NegSet k hash ttl =>
    obtain ⟨S', h'⟩ := h.l2NegSet rb old hwf k hash now ttl
    exact ⟨S', h', rfl⟩
  | varidxPendingSet k mark => exact ⟨S, h.varidxPendingSet k mark, rfl⟩
  | touchLru k protectedPct hash => exact ⟨S, h.touchFound k now protectedPct hash, rfl⟩
  | accessL1 k hash q =>
    obtain ⟨h', he⟩ := h.accessL1 k hash now q
    exact ⟨S, h', congrArg Answer.l1 he⟩
  | purgeKey k =>
    obtain ⟨h', he⟩ := h.purgeKey rb hwf k
    exact ⟨S, h', congrArg Answer.flag he⟩
  | purgeIfBlob k stored =>
    obtain ⟨h', he⟩ := h.purgeIfBlob rb hwf k stored
    exact ⟨S, h', congrArg Answer.flag he⟩
  | purgeBatch remaining =>
    obtain ⟨h', he⟩ := h.purgeBatch rb hwf remaining
    exact ⟨S, h', congrArg (Answer.purged · .ok) he⟩
  | purgeAll =>
    obtain ⟨h', he⟩ := h.purgeAll rb hwf
    exact ⟨S, h', congrArg (fun x : ℕ × Rc => Answer.purged x.1 x.2) he⟩
  | breakerWrite word =>
    refine ⟨S, h.move ?_ rfl rfl rfl h.tree h.queued, rfl⟩
    obtain ⟨m, β, rfl⟩ := h.refilled
    rfl
  | admissionWrite on =>
    refine ⟨S, h.move ?_ rfl rfl rfl h.tree h.queued, rfl⟩
    obtain ⟨m, β, rfl⟩ := h.refilled
    rfl

/-- A step of the system over recycled blocks: only an operation makes a node. -/
def Loans.recycledStep (s : Loans) : Event → Loans
  | .op now op =>
      let r := Shm.execOver rb (recycledBlock rb old) s.zone now op
      { s with zone := r.1, held := r.2.pins ++ s.held }
  | e => s.step rb e

/-- What a request sees of a step: an operation's answer, the body that a read
serves, and whether a release leaves a free to run. -/
inductive Sight
  | answered (answer : Answer)
  | served (body : Option (List UInt8))
  | released (job : Option (BlobId × ℕ))
  | freed

/-- What is seen of a step, where `answer` is the answer of its operation. -/
def Loans.sight (answer : Zone → Time → ZoneOp → Answer) (s : Loans) : Event → Sight
  | .op now op => .answered (answer s.zone now op)
  | .read b => .served (if b ∈ s.held then some (s.zone.blob b).body else none)
  | .release b => .released (if b ∈ s.held then (blobReleaseDrop s.zone b).2 else none)
  | .free _ => .freed

/-- What is seen of a step over clean blocks. -/
def Loans.cleanSight : Loans → Event → Sight :=
  Loans.sight fun z now op => (exec rb z now op).2

/-- What is seen of a step over recycled blocks. -/
def Loans.recycledSight : Loans → Event → Sight :=
  Loans.sight fun z now op => (Shm.execOver rb (recycledBlock rb old) z now op).2

/-- A system over clean blocks and one over recycled blocks, side by side. -/
structure Beside (s t : Loans) : Prop where
  ok : s.Ok
  alike : ∃ S, Alike S s.zone t.zone
  held : t.held = s.held
  frees : t.frees = s.frees

theorem Alike.blobReleaseDrop {S : Set Addr} {z w : Zone} (h : Alike S z w) {b : BlobId}
    (hb : b < z.slab.serial) :
    Agree S (Shm.blobReleaseDrop z b) (Shm.blobReleaseDrop w b) := by
  unfold Shm.blobReleaseDrop
  dsimp only
  rw [show (w.access b).blob b = (z.access b).blob b from h.blob b hb]
  exact ⟨(h.access b).setBlob (f := fun r => { r with refs := r.refs - 1 }) hb fun _ => rfl, rfl⟩

/-- **One step** over recycled blocks shows what it shows over clean ones. -/
theorem Beside.step {s t : Loans} (h : Beside s t) (e : Event) :
    Beside (s.step rb e) (t.recycledStep rb old e) ∧
      t.recycledSight rb old e = s.cleanSight rb e := by
  obtain ⟨hok, ⟨S, hS⟩, hheld, hfrees⟩ := h
  have hok' := hok.step rb e
  have hlt : ∀ b ∈ s.held, b < s.zone.slab.serial := fun b hb =>
    hok.wf.heap.live_lt (hok.wf.heap.held_live b hb)
  cases e with
  | op now op =>
    obtain ⟨S', hnext, hans⟩ := hS.execOver rb old hok.wf now op
    refine ⟨⟨hok', ⟨S', hnext⟩, ?_, hfrees⟩, congrArg Sight.answered hans⟩
    show (Shm.execOver rb (recycledBlock rb old) t.zone now op).2.pins ++ t.held = _
    rw [hans, hheld]
    rfl
  | read b =>
    unfold Loans.recycledSight Loans.cleanSight Loans.sight
    unfold Loans.recycledStep
    unfold Loans.step at hok' ⊢
    dsimp only at hok' ⊢
    rw [hheld]
    split_ifs with hb
    · rw [if_pos hb] at hok'
      rw [hS.blob b (hlt b hb)]
      exact ⟨⟨hok', ⟨S, hS.access b⟩, rfl, hfrees⟩, rfl⟩
    · exact ⟨⟨hok, ⟨S, hS⟩, hheld, hfrees⟩, rfl⟩
  | release b =>
    unfold Loans.recycledSight Loans.cleanSight Loans.sight
    unfold Loans.recycledStep
    unfold Loans.step at hok' ⊢
    dsimp only at hok' ⊢
    rw [hheld]
    split_ifs with hb
    · rw [if_pos hb] at hok'
      obtain ⟨hdrop, hjob⟩ := hS.blobReleaseDrop (hlt b hb)
      rw [hjob, hfrees]
      exact ⟨⟨hok', ⟨S, hdrop⟩, rfl, rfl⟩, rfl⟩
    · exact ⟨⟨hok, ⟨S, hS⟩, hheld, hfrees⟩, rfl⟩
  | free job =>
    unfold Loans.recycledStep
    unfold Loans.step at hok' ⊢
    dsimp only at hok' ⊢
    rw [hfrees]
    split_ifs with hj
    · rw [if_pos hj] at hok'
      exact ⟨⟨hok', ⟨S, hS.freeBlob job.1 job.2⟩, hheld, rfl⟩, rfl⟩
    · exact ⟨⟨hok, ⟨S, hS⟩, hheld, hfrees⟩, rfl⟩

/-- **A run over recycled blocks is a run over clean ones.** -/
theorem Beside.run {s t : Loans} (h : Beside s t) (run : List Event) :
    Beside (Run.after (Loans.step rb) s run) (Run.after (Loans.recycledStep rb old) t run) ∧
      Run.outputs (Loans.recycledStep rb old) (Loans.recycledSight rb old) t run =
        Run.outputs (Loans.step rb) (Loans.cleanSight rb) s run :=
  Run.outputs_of_related (fun _ _ e h => h.step rb old e) h run

/-- Two fresh zones whose blocks hold different bytes. -/
theorem Beside.fresh (mem mem' : Addr → Node) (blob blob' : BlobId → Blob)
    (haddr : ∀ b, (blob' b).addr = (blob b).addr) (answers : ℕ → Option Addr) (sketch : Sketch)
    (admission : Bool) (breakerState : ℕ) :
    Beside (Loans.fresh (freshZone mem blob answers sketch admission breakerState))
      (Loans.fresh (freshZone mem' blob' answers sketch admission breakerState)) where
  ok := ⟨Wf.freshZone mem blob answers sketch admission breakerState, nofun⟩
  alike := ⟨∅, {
    rest := rfl
    mem := fun _ ha => ha.elim
    blob := nofun
    addr := haddr
    data := fun _ ha => ha.elim
    tree := nofun
    queued := nofun }⟩
  held := rfl
  frees := rfl

end Old

/-- Two systems that differ in old bytes only: the tree, the queues, the counters,
the slab and the loans are the same, and so is every node that is linked and every
body that was ever allocated. -/
structure SameButOldBytes (s t : Loans) : Prop where
  rest : t = { s with zone := { s.zone with mem := t.zone.mem, blob := t.zone.blob } }
  node : ∀ a ∈ addrs s.zone.rbtree, t.zone.mem a = s.zone.mem a
  body : ∀ b < s.zone.slab.serial, t.zone.blob b = s.zone.blob b

/-- Two systems beside the same one. -/
theorem Beside.same {s t t' : Loans} (h : Beside s t) (h' : Beside s t') :
    SameButOldBytes t t' := by
  obtain ⟨-, ⟨S, hS⟩, hheld, hfrees⟩ := h
  obtain ⟨-, ⟨S', hS'⟩, hheld', hfrees'⟩ := h'
  have htree : t.zone.rbtree = s.zone.rbtree := by rw [hS.rest]
  have hslab : t.zone.slab = s.zone.slab := by rw [hS.rest]
  refine ⟨?_, fun a ha => ?_, fun b hb => ?_⟩
  · obtain ⟨z, held, frees⟩ := s
    obtain ⟨w, _, _⟩ := t
    obtain ⟨w', _, _⟩ := t'
    dsimp only at hS hS' hheld hfrees hheld' hfrees' ⊢
    subst hheld hfrees hheld' hfrees'
    obtain ⟨m, β, rfl⟩ := hS.refilled
    exact congrArg (Loans.mk · _ _) hS'.rest
  · rw [htree] at ha
    rw [hS'.mem a (hS'.tree a ha), hS.mem a (hS.tree a ha)]
  · rw [hslab] at hb
    rw [hS'.blob b hb, hS.blob b hb]

variable (rb : Rbtree)

/-- **Old bytes are never read.**  Take any run of operations, reads, releases and
frees, any answers of the slab and any clock, and run it twice: over blocks and
bodies with these old bytes, and over blocks and bodies with those.  Both runs give
the same answers and serve the same bodies, and they end with the same tree, queues,
counters, evictions and loans, and with the same fields in every node and in every
header. -/
theorem old_bytes_unread (mem mem' : Addr → Node) (blob blob' : BlobId → Blob)
    (old old' : ℕ → Node) (answers : ℕ → Option Addr) (sketch : Sketch) (admission : Bool)
    (breakerState : ℕ) (run : List Event) :
    let s := Loans.fresh (freshZone mem blob answers sketch admission breakerState)
    let t := Loans.fresh (freshZone mem' (fun b => { blob' b with addr := (blob b).addr }) answers
      sketch admission breakerState)
    Run.outputs (Loans.recycledStep rb old') (Loans.recycledSight rb old') t run =
        Run.outputs (Loans.recycledStep rb old) (Loans.recycledSight rb old) s run ∧
      SameButOldBytes (Run.after (Loans.recycledStep rb old) s run)
        (Run.after (Loans.recycledStep rb old') t run) := by
  dsimp only
  obtain ⟨h, hout⟩ := (Beside.fresh mem mem blob blob (fun _ => rfl) answers sketch admission
    breakerState).run rb old run
  obtain ⟨h', hout'⟩ := (Beside.fresh mem mem' blob
    (fun b => { blob' b with addr := (blob b).addr }) (fun _ => rfl) answers sketch admission
    breakerState).run rb old' run
  exact ⟨hout'.trans hout.symm, h.same h'⟩

end Shm
end CacheTurbo
