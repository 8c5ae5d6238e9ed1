/-
# Allocation, eviction and the reference count of a body

`ngx_http_cache_turbo_blob_alloc`, `blob_node_release`, `blob_acquire`,
`shm_node_sie_live`, `shm_evict_one`, `shm_alloc_evict`, `shm_free_locked` and
`shm_drop_locked` (`ngx_http_cache_turbo_shm.c`).

`shm_alloc_evict` retries the slab after every eviction.  Its loop is bounded
here by the number of queued nodes: each round takes one node off a queue, and
`evictOne` answers `false` only when both queues are empty, so the bound is
never what ends the loop.

`blob_release`, which runs without the mutex, is a step of the system and not
of the zone.
-/

import CacheTurbo.Shm.Lru
import CacheTurbo.Shm.Tree
import Mathlib.Algebra.Group.Int.Defs
import Mathlib.Algebra.Group.Nat.Defs

namespace CacheTurbo
namespace Shm

/-- `ngx_http_cache_turbo_shm_get_u32`: four bytes, little-endian. -/
def getU32 (p : List UInt8) (off : ℕ) : ℕ :=
  (p.getD off 0).toNat ||| (p.getD (off + 1) 0).toNat <<< 8 |||
    (p.getD (off + 2) 0).toNat <<< 16 ||| (p.getD (off + 3) 0).toNat <<< 24

/-- `ngx_http_cache_turbo_shm_get_u64`. -/
def getU64 (p : List UInt8) (off : ℕ) : ℕ := getU32 p off ||| getU32 p (off + 4) <<< 32

/-- The cast of a 64-bit word to `time_t`. -/
def timeOfU64 (w : ℕ) : Time := if w < 2 ^ 63 then w else (w : ℤ) - 2 ^ 64

/-- `ngx_slab_alloc_locked`: the next answer, unless that block is taken. -/
def slabAlloc (z : Zone) : Zone × Option Addr :=
  let asked := { z with slab := { z.slab with asked := z.slab.asked + 1 } }
  match z.slab.answers z.slab.asked with
  | none => (asked, none)
  | some p =>
      if p ∈ z.slab.taken then (asked, none)
      else
        ({ z with slab := { z.slab with
            asked := z.slab.asked + 1, taken := p :: z.slab.taken } }, some p)

/-- `ngx_http_cache_turbo_shm_free_locked`. -/
def freeLocked (z : Zone) (p : Addr) (size : ℕ) : Zone :=
  let z := if z.usedBytes ≥ size then { z with usedBytes := z.usedBytes - size }
    else { z with alerts := z.alerts + 1, usedBytes := 0 }
  { z with slab := { z.slab with taken := z.slab.taken.erase p } }

/-- `ngx_http_cache_turbo_shm_free_locked(z, ref, bytes)`: the block of the body
`b` goes back to the slab. -/
def freeBlob (z : Zone) (b : BlobId) (bytes : ℕ) : Zone :=
  let z := freeLocked z (z.blob b).addr bytes
  { z with slab := { z.slab with blobs := z.slab.blobs.erase b, freed := b :: z.slab.freed } }

/-- `ngx_http_cache_turbo_blob_node_release`: the owning node lets go. -/
def blobNodeRelease (z : Zone) (b : BlobId) : Zone :=
  let z := z.access b
  let bytes := (z.blob b).bytes
  let old := (z.blob b).refs
  let z := z.setBlob b fun r => { r with detached := true, refs := r.refs - 1 }
  if old = 1 then freeBlob z b bytes else z

/-- `ngx_http_cache_turbo_blob_acquire`. -/
def blobAcquire (z : Zone) (b : BlobId) : Zone :=
  (z.access b).setBlob b fun r => { r with refs := r.refs + 1 }

/-- `ngx_http_cache_turbo_shm_node_sie_live`. -/
def nodeSieLive (z : Zone) (ctn : Addr) (now : Time) : Bool :=
  match (z.mem ctn).kind, (z.mem ctn).data with
  | .entry, some b =>
      let created := timeOfU64 (getU64 (z.blob b).body 24)
      let sieTtl := getU32 (z.blob b).body 40
      decide (sieTtl > 0) && decide (now < created + sieTtl)
  | _, _ => false

/-- The body `nodeSieLive` reads, if it reads one. -/
def sieAccess (z : Zone) (ctn : Addr) : Zone :=
  match (z.mem ctn).kind, (z.mem ctn).data with
  | .entry, some b => z.access b
  | _, _ => z

/-- `ngx_http_cache_turbo_brk_state`. -/
def brkState (w : ℕ) : ℕ := w % 4

/-- `NGX_HTTP_CACHE_TURBO_BREAKER_OPEN`. -/
def breakerOpen : ℕ := 1

/-- The inner walk of `shm_evict_one`, from the tail: while the breaker is open
an entry inside its stale-if-error window is passed over once. -/
def evictWalk (isOpen : Bool) (now : Time) : List Addr → Zone → Zone × Option Addr
  | [], z => (z, none)
  | q :: rest, z =>
      if isOpen && !(z.mem q).sieSpared then
        let z' := sieAccess z q
        if nodeSieLive z q now then
          evictWalk isOpen now rest (z'.setNode q fun n => { n with sieSpared := true })
        else (z', some q)
      else (z, some q)

/-- `blob_node_release` on a node's body, when it has one. -/
def releaseData (z : Zone) (data : Option BlobId) : Zone :=
  match data with
  | some b => blobNodeRelease z b
  | none => z

/-- `markers--` when the node is an auto-Vary marker. -/
def discountMarker (z : Zone) (ctn : Addr) : Zone :=
  if (z.mem ctn).kind = .marker then { z with markers := z.markers - 1 } else z

variable (rb : Rbtree)

/-- `ngx_http_cache_turbo_shm_drop_locked`. -/
def dropLocked (z : Zone) (ctn : Addr) : Zone :=
  let z := lruUnlink z ctn
  let z := { z with nEntries := z.nEntries - 1 }
  let z := rbtreeDelete rb z ctn
  let z := discountMarker z ctn
  let z := releaseData z (z.mem ctn).data
  freeLocked z ctn sizeofNode

/-- The take site of `shm_evict_one`: the statements of `shm_drop_locked`, and
`evictions++`. -/
def evictTake (z : Zone) (ctn : Addr) : Zone :=
  let z := dropLocked rb z ctn
  { z with evictions := z.evictions + 1 }

/-- `shm_evict_one` on one non-empty queue, given from the tail: the first node
the walk does not spare, and the tail itself when it spares them all. -/
def evictFrom (z : Zone) (isOpen : Bool) (now : Time) (last : Addr) (queue : List Addr) : Zone :=
  let r := evictWalk isOpen now queue z
  evictTake rb r.1 (r.2.getD last)

/-- `ngx_http_cache_turbo_shm_evict_one`: probation first, then protected. -/
def evictOne (z : Zone) (now : Time) : Zone × Bool :=
  let isOpen := brkState z.breakerState == breakerOpen
  match z.lru.reverse, z.lruProtected.reverse with
  | last :: rest, _ => (evictFrom rb z isOpen now last (last :: rest), true)
  | [], last :: rest => (evictFrom rb z isOpen now last (last :: rest), true)
  | [], [] => (z, false)

/-- The loop of `ngx_http_cache_turbo_shm_alloc_evict`. -/
def allocLoop (now : Time) : ℕ → Zone → Zone × Option Addr
  | fuel, z =>
      match slabAlloc z with
      | (z, some p) => (z, some p)
      | (z, none) =>
          match fuel with
          | 0 => (z, none)
          | fuel + 1 =>
              match evictOne rb z now with
              | (z, true) => allocLoop now fuel z
              | (z, false) => (z, none)

/-- `ngx_http_cache_turbo_shm_alloc_evict`. -/
def allocEvict (z : Zone) (now : Time) (size : ℕ) : Zone × Option Addr :=
  match allocLoop rb now z.resident.length z with
  | (z, some p) => ({ z with usedBytes := z.usedBytes + size }, some p)
  | (z, none) => (z, none)

/-- `ngx_http_cache_turbo_blob_alloc`, and the copy of the bytes into it. -/
def blobAlloc (z : Zone) (now : Time) (data : List UInt8) : Zone × Option BlobId :=
  match allocEvict rb z now (sizeofBlobref + data.length) with
  | (z, none) => (z, none)
  | (z, some base) =>
      let b := z.slab.serial
      let z := z.setBlob b fun _ =>
        { addr := base, refs := 1, detached := false, bytes := sizeofBlobref + data.length,
          body := data }
      ({ z with slab := { z.slab with blobs := b :: z.slab.blobs, serial := b + 1 } }, some b)

end Shm
end CacheTurbo
