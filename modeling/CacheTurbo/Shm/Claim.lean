/-
# Leases, miss counters and the negative memo

`ngx_http_cache_turbo_shm_claim_locked`, `shm_claim`, `shm_resolve_miss`,
`shm_owns`, `shm_unstub`, `shm_count_miss_locked`, `shm_count_miss`,
`shm_l2_neg_check`, `shm_l2_neg_set` and `shm_varidx_pending_set`
(`ngx_http_cache_turbo_shm.c`), and the lock-held part of
`ngx_http_cache_turbo_access_l1` (`ngx_http_cache_turbo_access.c`), which is
where a stale hit takes the refresh lease.

`owner_seq` is a `uint64_t` whose wrap the source rules out; it is a natural
number here.
-/

import CacheTurbo.Shm.Store

namespace CacheTurbo
namespace Shm

/-- `NGX_HTTP_CACHE_TURBO_CLAIM_*`. -/
inductive Claim
  | winner
  | loser
  | fresh
  deriving DecidableEq, Repr

/-- What `shm_claim_locked` answers: the verdict, `*owner`, and the pinned body
of a fresh entry. -/
structure ClaimAnswer where
  verdict : Claim
  owner : ℕ
  freshData : Option BlobId
  freshLen : ℕ
  deriving DecidableEq, Repr

/-- A body pointer that is pinned when it is not NULL. -/
def pinData (z : Zone) (data : Option BlobId) : Zone :=
  match data with
  | some b => blobAcquire z b
  | none => z

/-- The fields every creation site of a COUNTER node writes the same way. -/
def counterNode (n : Node) (keyHash : KeyHash) (hash : UInt32) (now : Time) : Node :=
  { n with
    key := keyHash
    kind := .counter
    data := none
    len := 0
    freshUntil := 0
    staleUntil := 0
    lastAccess := now
    promotable := false
    hashCrc32 := hash }

variable (rb : Rbtree)

/-- `ngx_http_cache_turbo_shm_claim_locked`; `pin` is `fresh_data != NULL`. -/
def claimLocked (z : Zone) (hash : UInt32) (keyHash : KeyHash) (lockTtl : Time)
    (ctn : Option Addr) (now : Time) (pin : Bool) : Zone × ClaimAnswer :=
  match ctn with
  | some ctn =>
      let n := z.mem ctn
      if n.len > 0 ∧ now < n.freshUntil then
        if pin then (pinData z n.data, ⟨.fresh, 0, n.data, n.len⟩) else (z, ⟨.fresh, 0, none, n.len⟩)
      else if n.refreshing ∧ now < n.refreshLockUntil then (z, ⟨.loser, 0, none, 0⟩)
      else
        let owner := z.ownerSeq + 1
        let z := { z with ownerSeq := owner }
        (z.setNode ctn fun n => { n with
          refreshing := true, refreshLockUntil := now + lockTtl, refreshOwner := owner },
          ⟨.winner, owner, none, 0⟩)
  | none =>
      match allocEvict rb z now sizeofNode with
      -- no room for a stub: go to the origin without a lease
      | (z, none) => (z, ⟨.winner, 0, none, 0⟩)
      | (z, some ctn) =>
          let owner := z.ownerSeq + 1
          let z := { z with ownerSeq := owner }
          (createNode rb z ctn fun n => { counterNode n keyHash hash now with
            refreshing := true
            refreshLockUntil := now + lockTtl
            refreshOwner := owner
            missCount := 0
            l2NegUntil := 0 }, ⟨.winner, owner, none, 0⟩)

/-- `ngx_http_cache_turbo_shm_claim`. -/
def claim (z : Zone) (keyHash : KeyHash) (hash : UInt32) (now lockTtl : Time) :
    Zone × ClaimAnswer :=
  claimLocked rb z hash keyHash lockTtl (lookup z keyHash) now false

/-- `ngx_http_cache_turbo_shm_count_miss_locked`. -/
def countMissLocked (z : Zone) (keyHash : KeyHash) (hash : UInt32) (minUses : ℤ)
    (minUsesWindow : Time) (ctn : Option Addr) (now : Time) : Zone × Rc :=
  match ctn with
  | some ctn =>
      let n := z.mem ctn
      if n.kind = .entry ∧ n.len > 0 then (z, .ok)
      else if n.refreshing ∧ now < n.refreshLockUntil then (z, .ok)
      else
        let restart := minUsesWindow > 0 ∧ now - n.lastAccess > minUsesWindow
        let count := (if restart then 0 else n.missCount) + 1
        (z.setNode ctn fun n => { n with missCount := count },
          if (count : ℤ) ≥ minUses then .ok else .declined)
  | none =>
      match allocEvict rb z now sizeofNode with
      | (z, none) => (z, .ok)
      | (z, some ctn) =>
          (createNode rb z ctn fun n => { counterNode n keyHash hash now with
            refreshing := false
            refreshLockUntil := 0
            refreshOwner := 0
            missCount := 1
            l2NegUntil := 0 }, if minUses ≤ 1 then .ok else .declined)

/-- `ngx_http_cache_turbo_shm_count_miss`. -/
def countMiss (z : Zone) (keyHash : KeyHash) (hash : UInt32) (now : Time) (minUses : ℤ)
    (minUsesWindow : Time) : Zone × Rc :=
  countMissLocked rb z keyHash hash minUses minUsesWindow (lookup z keyHash) now

/-- `ngx_http_cache_turbo_shm_resolve_miss`; the second component is
`*count_miss_rc`. -/
def resolveMiss (z : Zone) (keyHash : KeyHash) (hash : UInt32) (now : Time) (minUses : ℤ)
    (minUsesWindow lockTtl : Time) : Zone × Rc × ClaimAnswer :=
  let ctn := lookup z keyHash
  match countMissLocked rb z keyHash hash minUses minUsesWindow ctn now with
  | (z, .declined) => (z, .declined, ⟨.winner, 0, none, 0⟩)
  | (z, rc) =>
      let ctn := ctn.or (lookup z keyHash)
      let r := claimLocked rb z hash keyHash lockTtl ctn now true
      (r.1, rc, r.2)

/-- `ngx_http_cache_turbo_shm_owns`. -/
def owns (z : Zone) (keyHash : KeyHash) (owner : ℕ) : Bool :=
  if owner = 0 then false
  else
    match lookup z keyHash with
    | none => false
    | some ctn => (z.mem ctn).refreshing && decide ((z.mem ctn).refreshOwner = owner)

/-- `ngx_http_cache_turbo_shm_unstub`. -/
def unstub (z : Zone) (keyHash : KeyHash) (owner : ℕ) (now : Time) : Zone :=
  if owner = 0 then z
  else
    match lookup z keyHash with
    | none => z
    | some ctn =>
        let n := z.mem ctn
        if (n.kind = .counter ∨ n.kind = .entry) ∧ n.refreshing ∧ n.refreshOwner = owner then
          let z := z.setNode ctn fun n => { n with
            refreshing := false, refreshLockUntil := 0, refreshOwner := 0 }
          -- a counter that carries nothing else goes
          if n.kind = .counter ∧ n.missCount = 0 ∧ n.l2NegUntil ≤ now then
            let z := lruUnlink z ctn
            let z := { z with nEntries := z.nEntries - 1 }
            let z := rbtreeDelete rb z ctn
            freeLocked z ctn sizeofNode
          else z
        else z

/-- `ngx_http_cache_turbo_shm_l2_neg_check`. -/
def l2NegCheck (z : Zone) (keyHash : KeyHash) (hash : UInt32) (now : Time) : Zone × Rc :=
  match lookup z keyHash with
  | none => (z, .ok)
  | some ctn =>
      if (z.mem ctn).kind = .counter ∧ (z.mem ctn).l2NegUntil > now then
        (touchLru z ctn now 0 hash, .declined)
      else (z, .ok)

/-- `ngx_http_cache_turbo_shm_varidx_pending_set`. -/
def varidxPendingSet (z : Zone) (keyHash : KeyHash) (pending : Bool) : Zone :=
  match lookup z keyHash with
  | none => z
  | some ctn =>
      if (z.mem ctn).kind = .entry then
        z.setNode ctn fun n => { n with varidxPending := pending }
      else z

/-- `ngx_http_cache_turbo_shm_l2_neg_set`. -/
def l2NegSet (z : Zone) (keyHash : KeyHash) (hash : UInt32) (now ttl : Time) : Zone :=
  match lookup z keyHash with
  | some ctn =>
      if (z.mem ctn).kind = .entry ∨ (z.mem ctn).kind = .marker then z
      else z.setNode ctn fun n => { n with l2NegUntil := now + ttl }
  | none =>
      match allocEvict rb z now sizeofNode with
      | (z, none) => z
      | (z, some ctn) =>
          createNode rb z ctn fun n => { counterNode n keyHash hash now with
            refreshing := false
            refreshLockUntil := 0
            refreshOwner := 0
            missCount := 0
            l2NegUntil := now + ttl }

/-! ### The lookup of a request -/

/-- What a request brings to its L1 lookup: the location's protected percentage,
the effective load (`1000` without autotune), the verdict of its own freshness
bounds, whether it may only arm the breaker or is revalidating its marker, the
cross-node lock reply it resumed with, and what happens to it in there: the
refresh dice and the pool's cleanup records. -/
structure L1Req where
  protectedPct : ℕ
  load : ℤ
  freshOk : Bool
  staleOk : Bool
  brkOnly : Bool
  revalidate : Bool
  lockResult : Option Rc
  backgroundUpdate : Bool
  dice : Bool
  lockTtl : Time
  cleanupOk : Bool
  brkArm : Bool
  sieArm : Bool

/-- How the L1 lookup of a request ends. -/
inductive L1Verdict
  | miss
  | error
  | hit (body : Option BlobId)
  | stale (body : Option BlobId)
  | refresh (body : Option BlobId)
  | regenerate
  | expired (armed : List BlobId)
  deriving DecidableEq, Repr

/-- `ngx_http_cache_turbo_access_l1_stale_window`: the load-widened deadline. -/
def staleWindow (freshUntil staleUntil : Time) (load : ℤ) : Time :=
  if staleUntil ≠ 0 ∧ load > 1000 ∧ staleUntil - freshUntil > 0 then
    staleUntil + (staleUntil - freshUntil) * (load - 1000) / 1000
  else staleUntil

/-- The lock-held part of `ngx_http_cache_turbo_access_l1_serve_stale`. -/
def serveStale (z : Zone) (ctn : Addr) (hash : UInt32) (now : Time) (q : L1Req) :
    Zone × L1Verdict :=
  let z := touchLru z ctn now q.protectedPct hash
  let n := z.mem ctn
  if q.lockResult = some .ok ∨ q.lockResult = some .error then
    if q.backgroundUpdate then
      if q.cleanupOk then (pinData z n.data, .stale n.data) else (z, .error)
    else (z, .regenerate)
  else if q.lockResult = none ∧ (n.refreshing = false ∨ now ≥ n.refreshLockUntil) ∧ q.dice then
    if q.cleanupOk then
      -- `refresh_owner` is not written
      ((pinData z n.data).setNode ctn fun n => { n with
        refreshing := true, refreshLockUntil := now + q.lockTtl }, .refresh n.data)
    else (z, .error)
  else (pinData z n.data, .stale n.data)

/-- The stale-if-error arm: the body's own window, read from its header. -/
def sieArmed (z : Zone) (ctn : Addr) (now : Time) : Bool :=
  match (z.mem ctn).data with
  | some b =>
      let created := timeOfU64 (getU64 (z.blob b).body 24)
      let sieTtl := getU32 (z.blob b).body 40
      decide (sieTtl > 0) && decide (now < created + sieTtl)
  | none => false

/-- `ngx_http_cache_turbo_access_l1_breaker_arm`, then `access_l1_sie_arm`. -/
def armSnapshots (z : Zone) (ctn : Addr) (now : Time) (q : L1Req) : Zone × L1Verdict :=
  match (z.mem ctn).data with
  | none => (z, .expired [])
  | some b =>
      if (z.mem ctn).len = 0 then (z, .expired [])
      else
        let r := if q.brkArm then (blobAcquire z b, [b]) else (z, [])
        let read := if q.sieArm then r.1.access b else r.1
        if q.sieArm && sieArmed read ctn now then (blobAcquire read b, .expired (b :: r.2))
        else (read, .expired r.2)

/-- The lock-held part of `ngx_http_cache_turbo_access_l1`, from the lookup on. -/
def accessL1 (z : Zone) (keyHash : KeyHash) (hash : UInt32) (now : Time) (q : L1Req) :
    Zone × L1Verdict :=
  match lookup z keyHash with
  | none => (z, .miss)
  | some ctn =>
      let n := z.mem ctn
      let staleUntil := staleWindow n.freshUntil n.staleUntil q.load
      if q.brkOnly = false ∧ q.revalidate = false ∧ now < n.freshUntil ∧ q.freshOk then
        -- the pending index write is consumed; the caller re-issues it
        let z := z.setNode ctn fun n => { n with varidxPending := false }
        (touchLru (pinData z n.data) ctn now q.protectedPct hash, .hit n.data)
      else if q.revalidate = false ∧ q.brkOnly = false ∧ (staleUntil = 0 ∨ now < staleUntil) ∧
          n.len > 0 ∧ q.staleOk then
        serveStale z ctn hash now q
      else
        armSnapshots (z.setNode ctn fun n => { n with varidxPending := false }) ctn now q

end Shm
end CacheTurbo
