/-
# Storing, freshening and purging

`ngx_http_cache_turbo_shm_admit`, `shm_store_locked`, `shm_store`,
`shm_store_marker`, `shm_store_if`, `shm_freshen`, `shm_purge_key`,
`shm_purge_if_blob` and `shm_purge_all` (`ngx_http_cache_turbo_shm.c`).

Each function is one hold of the zone mutex, `shm_purge_all` excepted: it
takes and drops the mutex once per batch, so a batch is a step of its own and
`purgeAll` is the loop of batches with nobody in between.
-/

import CacheTurbo.Shm.Evict

namespace CacheTurbo
namespace Shm

/-- `ngx_http_cache_turbo_shm_admit`: the candidate is refused when the sketch
calls it colder than the probation tail. -/
def shmAdmit (z : Zone) (hash : UInt32) : Zone × Bool :=
  if !z.admission then (z, true)
  else if z.sketch.counters.isNone then (z, true)
  else
    match z.lru.getLast? with
    | none => (z, true)
    | some victim =>
        let candFreq := sketchEstimate z.sketch (sketchRows hash)
        let victimFreq := sketchEstimate z.sketch (sketchRows (z.mem victim).hashCrc32)
        if candFreq < victimFreq then
          ({ z with admissionRefused := z.admissionRefused + 1 }, false)
        else (z, true)

/-- `NGX_HTTP_CACHE_TURBO_STORE_IF_*`; any other value refuses. -/
inductive StoreIf
  | newer
  | absentOrDead
  | other
  deriving DecidableEq, Repr

/-- `NGX_HTTP_CACHE_TURBO_PURGE_BATCH`. -/
def purgeBatchMax : ℕ := 512

variable (rb : Rbtree)

/-- The create path's node: a fresh block, written, put in the tree and linked
at the probation head. -/
def createNode (z : Zone) (ctn : Addr) (write : Node → Node) : Zone :=
  lruInsertNew (rbtreeInsert rb (z.setNode ctn write) ctn) ctn

/-- The refresh path of `shm_store_locked`: the node keeps its place in the tree
and gets a new body. -/
def storeRefresh (z : Zone) (now : Time) (data : List UInt8) (freshTtl staleTtl : Time)
    (ctn : Addr) : Zone × Rc × Option Addr :=
  -- the node is off its queue while the allocation evicts others
  match blobAlloc rb (lruUnlink z ctn) now data with
  | (z, none) => (lruLinkHead z ctn, .error, none)
  | (z, some body) =>
      let z := releaseData z (z.mem ctn).data
      let z := z.setNode ctn fun n => { n with
        kind := .entry
        data := some body
        len := data.length
        freshUntil := now + freshTtl
        staleUntil := if staleTtl ≠ 0 then now + staleTtl else 0
        refreshing := false
        refreshLockUntil := 0
        refreshOwner := 0
        l2NegUntil := 0
        lastAccess := now
        seg := .segProbation
        promotable := false
        sieSpared := false }
      (lruLinkHead z ctn, .ok, some ctn)

/-- The create path of `shm_store_locked`. -/
def storeCreate (z : Zone) (keyHash : KeyHash) (hash : UInt32) (now : Time) (data : List UInt8)
    (freshTtl staleTtl : Time) : Zone × Rc × Option Addr :=
  match shmAdmit z hash with
  | (z, false) => (z, .declined, none)
  | (z, true) =>
      match allocEvict rb z now sizeofNode with
      | (z, none) => (z, .error, none)
      | (z, some ctn) =>
          match blobAlloc rb z now data with
          | (z, none) => (freeLocked z ctn sizeofNode, .error, none)
          | (z, some body) =>
              let z := createNode rb z ctn fun n => { n with
                key := keyHash
                kind := .entry
                data := some body
                len := data.length
                freshUntil := now + freshTtl
                staleUntil := if staleTtl ≠ 0 then now + staleTtl else 0
                refreshing := false
                refreshLockUntil := 0
                refreshOwner := 0
                missCount := 0
                l2NegUntil := 0
                lastAccess := now
                promotable := false
                hashCrc32 := hash }
              (z, .ok, some ctn)

/-- `ngx_http_cache_turbo_shm_store_locked`; the last component is `*out_ctn`. -/
def storeLocked (z : Zone) (keyHash : KeyHash) (hash : UInt32) (now : Time) (data : List UInt8)
    (freshTtl staleTtl : Time) (ctn : Option Addr) : Zone × Rc × Option Addr :=
  match ctn.or (lookup z keyHash) with
  | some ctn => storeRefresh rb z now data freshTtl staleTtl ctn
  | none => storeCreate rb z keyHash hash now data freshTtl staleTtl

/-- The caller's own reference on the body just stored (`stored_data != NULL`). -/
def pinWritten (wanted : Bool) (r : Zone × Rc × Option Addr) : Zone × Rc × Option BlobId :=
  match r with
  | (z, .ok, some written) =>
      if wanted then
        match (z.mem written).data with
        | some b => (blobAcquire z b, .ok, some b)
        | none => (z, .ok, none)
      else (z, .ok, none)
  | (z, rc, _) => (z, rc, none)

/-- `ngx_http_cache_turbo_shm_store`; the last component is `*stored_data`. -/
def store (z : Zone) (keyHash : KeyHash) (hash : UInt32) (now : Time) (data : List UInt8)
    (freshTtl staleTtl : Time) (wanted : Bool) : Zone × Rc × Option BlobId :=
  pinWritten wanted (storeLocked rb z keyHash hash now data freshTtl staleTtl none)

/-- `ngx_http_cache_turbo_shm_store_marker`. -/
def storeMarker (z : Zone) (keyHash : KeyHash) (hash : UInt32) (now : Time) (data : List UInt8)
    (freshTtl staleTtl : Time) : Zone × Rc :=
  let ctn := lookup z keyHash
  let wasMarker := ctn.any fun a => (z.mem a).kind == .marker
  match storeLocked rb z keyHash hash now data freshTtl staleTtl ctn with
  | (z, .ok, some written) =>
      let z := z.setNode written fun n => { n with kind := .marker }
      (if wasMarker then z else { z with markers := z.markers + 1 }, .ok)
  | (z, rc, _) => (z, rc)

/-- Whether `shm_store_if` refuses to replace the resident node. -/
def storeIfRefuses (z : Zone) (ctn : Option Addr) (now freshTtl : Time) (predicate : StoreIf) :
    Bool :=
  match ctn with
  | none => false
  | some a =>
      let n := z.mem a
      if n.kind = .entry ∧ n.len > 0 then
        match predicate with
        | .newer => decide (n.freshUntil > now + freshTtl)
        | .absentOrDead => decide (n.staleUntil = 0 ∨ now < n.staleUntil)
        | .other => true
      else false

/-- `ngx_http_cache_turbo_shm_store_if`. -/
def storeIf (z : Zone) (keyHash : KeyHash) (hash : UInt32) (now : Time) (data : List UInt8)
    (freshTtl staleTtl : Time) (predicate : StoreIf) (wanted : Bool) :
    Zone × Rc × Option BlobId :=
  let ctn := lookup z keyHash
  if storeIfRefuses z ctn now freshTtl predicate then (z, .declined, none)
  else pinWritten wanted (storeLocked rb z keyHash hash now data freshTtl staleTtl ctn)

/-- `ngx_http_cache_turbo_shm_freshen`. -/
def freshen (z : Zone) (keyHash : KeyHash) (now freshTtl staleTtl : Time) : Zone × Rc :=
  match lookup z keyHash with
  | none => (z, .declined)
  | some ctn =>
      if (z.mem ctn).kind ≠ .entry ∨ (z.mem ctn).len = 0 then (z, .declined)
      else
        (z.setNode ctn fun n => { n with
          freshUntil := now + freshTtl
          staleUntil := if staleTtl ≠ 0 then now + staleTtl else 0
          refreshing := false
          refreshLockUntil := 0
          refreshOwner := 0
          lastAccess := now }, .ok)

/-- `ngx_http_cache_turbo_shm_purge_key`. -/
def purgeKey (z : Zone) (keyHash : KeyHash) : Zone × Bool :=
  match lookup z keyHash with
  | none => (z, false)
  | some ctn => (dropLocked rb z ctn, true)

/-- `ngx_http_cache_turbo_shm_purge_if_blob`: the pointers are compared. -/
def purgeIfBlob (z : Zone) (keyHash : KeyHash) (storedData : BlobId) : Zone × Bool :=
  match lookup z keyHash with
  | none => (z, false)
  | some ctn =>
      match (z.mem ctn).data with
      | none => (z, false)
      | some b =>
          if (z.blob b).addr ≠ (z.blob storedData).addr then (z, false)
          else (dropLocked rb z ctn, true)

/-- One inner loop of a `shm_purge_all` batch: drop the head of the queue while
the batch may grow; the count is the number dropped. -/
def dropHeads (queue : Zone → List Addr) : ℕ → Zone → Zone × ℕ
  | 0, z => (z, 0)
  | limit + 1, z =>
      match queue z with
      | [] => (z, 0)
      | head :: _ =>
          let r := dropHeads queue limit (dropLocked rb z head)
          (r.1, r.2 + 1)

/-- One hold of the mutex in `shm_purge_all`: the batch count. -/
def purgeBatch (z : Zone) (remaining : ℕ) : Zone × ℕ :=
  let limit := min purgeBatchMax remaining
  let r := dropHeads rb Zone.lru limit z
  let s := dropHeads rb Zone.lruProtected (limit - r.2) r.1
  (s.1, r.2 + s.2)

/-- The loop of `shm_purge_all`, with no other worker between the batches. -/
def purgeLoop : ℕ → Zone → ℕ → ℕ → Zone × ℕ × Rc
  | 0, z, _, purged => (z, purged, .ok)
  | fuel + 1, z, remaining, purged =>
      if remaining = 0 then (z, purged, .ok)
      else
        let r := purgeBatch rb z remaining
        let left := remaining - r.2
        if r.1.resident ≠ [] ∧ (left = 0 ∨ r.2 = 0) then (r.1, purged + r.2, .again)
        else if r.2 = 0 then (r.1, purged + r.2, .ok)
        else purgeLoop fuel r.1 left (purged + r.2)

/-- `ngx_http_cache_turbo_shm_purge_all` run alone; the count is `*purged`. -/
def purgeAll (z : Zone) : Zone × ℕ × Rc :=
  if z.nEntries = 0 ∧ z.resident ≠ [] then (z, 0, .again)
  else purgeLoop rb (z.nEntries + 1) z z.nEntries 0

end Shm
end CacheTurbo
