/-
# Nodes, blobs and the zone

`ngx_http_cache_turbo_node_t`, `ngx_http_cache_turbo_blobref_t` and
`ngx_http_cache_turbo_shctx_t` (`ngx_http_cache_turbo_module.h`,
`ngx_http_cache_turbo_internal.h`).

A zone is one state: the red-black tree, the two LRU queues (head first), the
counters the lock-held code keeps, and two memories.  `mem a` is the node
struct at slab address `a`, with whatever bytes the block held before it was
written, and `blob b` is the allocation `b` of a body: the reference header
that precedes the bytes, and the bytes.  A blob is named by the serial number
of its allocation, so that two bodies which occupied one address at different
times stay apart; `Blob.addr` is the address the code compares.

`Slab` is the slab pool as the lock-held code sees it: the addresses that are
taken, the bodies that are allocated, the log of the bodies that were given
back, and the answers the allocator is going to give.  An answer is an address
or a failure, and an answer that is already taken counts as a failure, so a
stream of answers is an arbitrary pattern of successes and failures of an
allocator that never hands out a taken block.
-/

import Mathlib.Data.Tree.Basic
import Mathlib.Logic.Function.Basic
import Mathlib.Data.Int.Notation
import Mathlib.Data.Nat.Notation

namespace CacheTurbo

/-- What a lock-held call answers (`NGX_OK`, `NGX_DECLINED`, `NGX_ERROR`,
`NGX_AGAIN`). -/
inductive Rc
  | ok
  | declined
  | error
  | again
  deriving DecidableEq, Repr

/-- `time_t`: seconds. -/
abbrev Time := ℤ

/-- The 32-byte digest of a cache key. -/
abbrev KeyHash := Vector UInt8 32

namespace Shm

/-- A slab address. -/
abbrev Addr := ℕ

/-- The serial number of a body allocation. -/
abbrev BlobId := ℕ

/-- `NGX_HTTP_CACHE_TURBO_NODE_*`: what a node holds. -/
inductive NodeKind
  | entry
  | counter
  | marker
  deriving DecidableEq, Repr

/-- `NGX_HTTP_CACHE_TURBO_SEG_*`: the queue a node is linked on. -/
inductive Seg
  | segProbation
  | segProtected
  deriving DecidableEq, Repr

/-- `ngx_http_cache_turbo_node_t`. -/
structure Node where
  key : KeyHash
  kind : NodeKind
  data : Option BlobId
  len : ℕ
  freshUntil : Time
  staleUntil : Time
  refreshing : Bool
  refreshOwner : ℕ
  refreshLockUntil : Time
  missCount : ℕ
  l2NegUntil : Time
  lastAccess : Time
  seg : Seg
  promotable : Bool
  sieSpared : Bool
  varidxPending : Bool
  hashCrc32 : UInt32
  deriving DecidableEq

/-- `ngx_http_cache_turbo_blobref_t` and the bytes behind it. -/
structure Blob where
  addr : Addr
  refs : ℤ
  detached : Bool
  bytes : ℕ
  body : List UInt8
  deriving DecidableEq

/-- What is written into a body once, when it is allocated. -/
def Blob.content (r : Blob) : ℕ × List UInt8 := (r.bytes, r.body)

/-- `sizeof(ngx_http_cache_turbo_node_t)` on a 64-bit target. -/
def sizeofNode : ℕ := 200

/-- `sizeof(ngx_http_cache_turbo_blobref_t)` on a 64-bit target. -/
def sizeofBlobref : ℕ := 24

/-- A node's link in the red-black tree: its address and its colour bit. -/
structure RbLink where
  addr : Addr
  red : Bool
  deriving DecidableEq

/-- The slab pool. -/
structure Slab where
  taken : List Addr
  blobs : List BlobId
  freed : List BlobId
  serial : ℕ
  answers : ℕ → Option Addr
  asked : ℕ

/-- The frequency sketch (`sketch`, `sketch_*`); no counters when the
allocation at zone start failed. -/
structure Sketch where
  counters : Option (ℕ → ℕ)
  width : ℕ
  ops : ℕ
  resetAt : ℕ
  gen : ℕ
  cursor : ℕ
  bumps : ℕ

/-- `ngx_http_cache_turbo_shctx_t`, with the slab behind it.  `alerts` counts
the `used_bytes underflow` alerts in the log and `wild` the accesses to a body
that is not allocated: neither is read by the code. -/
structure Zone where
  rbtree : BinaryTree RbLink
  lru : List Addr
  lruProtected : List Addr
  nProtected : ℕ
  nEntries : ℕ
  evictions : ℕ
  markers : ℕ
  ownerSeq : ℕ
  breakerState : ℕ
  admission : Bool
  admissionRefused : ℕ
  sketch : Sketch
  usedBytes : ℕ
  mem : Addr → Node
  blob : BlobId → Blob
  slab : Slab
  alerts : ℕ
  wild : ℕ

namespace Zone

/-- The nodes on the two queues. -/
def resident (z : Zone) : List Addr := z.lru ++ z.lruProtected

/-- Write fields of the node at `a`. -/
def setNode (z : Zone) (a : Addr) (f : Node → Node) : Zone :=
  { z with mem := Function.update z.mem a (f (z.mem a)) }

/-- Write fields of the body `b`. -/
def setBlob (z : Zone) (b : BlobId) (f : Blob → Blob) : Zone :=
  { z with blob := Function.update z.blob b (f (z.blob b)) }

/-- An access to the body `b`, which is a use after free when `b` is not
allocated. -/
def access (z : Zone) (b : BlobId) : Zone :=
  { z with wild := if b ∈ z.slab.blobs then z.wild else z.wild + 1 }

end Zone

end Shm
end CacheTurbo
