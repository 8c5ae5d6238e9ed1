/-
# The capture of a body

`ngx_http_cache_turbo_body_filter_capture` and the part of `ngx_http_cache_turbo_body_filter`
around it (`ngx_http_cache_turbo_filters.c`), down to the block that a call takes from the
request's pool: the counting pass, the guards on the sizes, the copying pass with its cursor,
and the chain of links it leaves in the context.

`size_t` has 64 bits, and its sums are taken modulo `2 ^ 64`.  The pool grants blocks that do
not overlap, with any old bytes in them, as long as there is address space; whether it has
memory is for the call to say.  `body_filter_store_tail` decides by other things whether the
response is kept; what it would keep of the body is the walk of `blob_write` over the chain
(`bodyBytes`).
-/

import CacheTurbo.Lib.TailList
import CacheTurbo.Http.SieBody

namespace CacheTurbo
namespace Http
namespace BodyCapture

open Bytes

/-! ## Sizes -/

/-- `size_t` wraps here. -/
def sizeTWords : ℕ := 0x10000000000000000

/-- `NGX_MAX_SIZE_T_VALUE`. -/
def sizeTMax : ℕ := 0x7fffffffffffffff

/-- `NGX_ALIGNMENT`. -/
def ngxAlignment : ℕ := 8

/-- `sizeof(ngx_buf_t)`. -/
def sizeofBuf : ℕ := 80

/-- `sizeof(ngx_chain_t)`. -/
def sizeofChain : ℕ := 16

/-- `ngx_align_ptr(p, NGX_ALIGNMENT)`. -/
def alignPtr (p : ℕ) : ℕ := (p + (ngxAlignment - 1)) / ngxAlignment * ngxAlignment

/-! ## The pool -/

/-- A link, by the block of its call and its place in the arrays there. -/
abbrev LinkId := ℕ × ℕ

/-- `bufs[i]`: a piece of a payload. -/
structure PieceBuf where
  block : ℕ
  pos : ℕ
  last : ℕ
  deriving DecidableEq, Repr

/-- What the request's pool holds for the capture: the payload of each block, and for each link
its buffer and its next. -/
structure Pool where
  payload : ℕ → ℕ → UInt8
  buf : LinkId → PieceBuf
  next : LinkId → Option LinkId
  /-- The number of blocks, and of the bytes in them. -/
  blocks : ℕ
  used : ℕ
  /-- The number of links. -/
  links : ℕ

/-- `ngx_memcpy` into a payload. -/
def memcpy (m : ℕ → UInt8) (p : ℕ) (src : Bytes) : ℕ → UInt8 := fun off =>
  if p ≤ off then src.getD (off - p) (m off) else m off

/-- The bytes of a payload from `pos` to `last`. -/
def readRange (m : ℕ → UInt8) (pos last : ℕ) : Bytes :=
  (List.range (last - pos)).map fun i => m (pos + i)

/-- A call of the filter: the incoming chain, whether the pool has memory, and where the block
would be.  The links and the buffers of the chain are objects in memory, and a buffer's bytes
are in its block. -/
structure Call where
  chain : List ChainBuf
  room : Bool
  base : ℕ
  inMemory : chain.length * (sizeofBuf + sizeofChain) ≤ sizeTMax
  bounds : ∀ b ∈ chain, b.memory = true → b.pos ≤ b.last ∧ b.last ≤ b.block.length ∧
    b.block.length < sizeTWords

/-- `ngx_pnalloc`: a new block, if there is memory for it. -/
def pnalloc (pool : Pool) (room : Bool) (size : ℕ) : Option (ℕ × Pool) :=
  if room = true ∧ pool.used + size ≤ sizeTWords then
    some (pool.blocks, { pool with blocks := pool.blocks + 1, used := pool.used + size })
  else none

/-! ## The context -/

/-- What the filter reads and writes of `ngx_http_cache_turbo_ctx_t`. -/
structure Ctx where
  sieServing : Bool
  captured : Bool
  served : Bool
  body : Option LinkId
  bodyLast : Option LinkId
  bodyLen : ℕ
  deriving DecidableEq, Repr

/-- The exits that abandon the capture. -/
def abandon (ctx : Ctx) : Ctx := { ctx with captured := false, body := none, bodyLast := none }

/-! ## The counting pass -/

/-- `n`: what both passes take of a buffer. -/
def bufLen (b : ChainBuf) : ℕ := if b.memory then b.last - b.pos else 0

/-- How the counting pass ends. -/
inductive Scan
  | fileBacked
  | oversize
  | counted (total nbufs : ℕ) (last : Bool)
  deriving DecidableEq, Repr

/-- The first loop of `ngx_http_cache_turbo_body_filter_capture`. -/
def scan (maxSize bodyLen : ℕ) : List ChainBuf → ℕ → ℕ → Bool → Scan
  | [], total, nbufs, last => .counted total nbufs last
  | b :: chain, total, nbufs, last =>
      if fileBacked b then .fileBacked
      else
        let n := bufLen b
        let last := last || b.lastBuf || b.lastInChain
        if n > 0 then
          if maxSize > 0 ∧ (total > maxSize ∨ n > maxSize - total ∨
              bodyLen > maxSize - total - n) then .oversize
          else scan maxSize bodyLen chain ((total + n) % sizeTWords) (nbufs + 1) last
        else scan maxSize bodyLen chain total nbufs last

/-- The size of the block, unless a guard refuses it. -/
def blockSize (total nbufs : ℕ) : Option ℕ :=
  if nbufs > sizeTMax / sizeofBuf ∨ nbufs > sizeTMax / sizeofChain then none
  else
    let metaLen := nbufs * (sizeofBuf + sizeofChain) % sizeTWords
    if metaLen < nbufs * sizeofBuf % sizeTWords ∨ total > sizeTMax - ngxAlignment ∨
        (total + ngxAlignment) % sizeTWords > sizeTMax - metaLen then none
    else some ((total + ngxAlignment + metaLen) % sizeTWords)

/-! ## The copying pass -/

/-- The cursor of the copying pass: the place for the next link (`none` is `&ctx->body`), the
place for the next bytes, and the next index. -/
structure Cursor where
  ll : Option LinkId
  p : ℕ
  i : ℕ
  deriving DecidableEq, Repr

/-- The state of the copying pass. -/
structure Copying where
  ctx : Ctx
  pool : Pool
  cursor : Cursor

/-- `*ll = link`. -/
def setLink (ctx : Ctx) (pool : Pool) (ll : Option LinkId) (link : LinkId) : Ctx × Pool :=
  match ll with
  | none => ({ ctx with body := some link }, pool)
  | some l => (ctx, { pool with next := Function.update pool.next l (some link) })

/-- One buffer of the second loop. -/
def copyBuf (block : ℕ) (c : Copying) (b : ChainBuf) : Copying :=
  let n := bufLen b
  if n = 0 then c
  else
    let link := (block, c.cursor.i)
    let pool := { c.pool with
      payload := Function.update c.pool.payload block
        (memcpy (c.pool.payload block) c.cursor.p (memoryBytes b))
      buf := Function.update c.pool.buf link ⟨block, c.cursor.p, c.cursor.p + n⟩
      next := Function.update c.pool.next link none
      links := c.pool.links + 1 }
    let (ctx, pool) := setLink c.ctx pool c.cursor.ll link
    { ctx := { ctx with bodyLast := some link }
      pool := pool
      cursor := ⟨some link, c.cursor.p + n, c.cursor.i + 1⟩ }

/-- The copying pass. -/
def copyPass (block : ℕ) (ctx : Ctx) (pool : Pool) (chain : List ChainBuf) : Copying :=
  chain.foldl (copyBuf block) ⟨ctx, pool, ⟨ctx.bodyLast, 0, 0⟩⟩

/-! ## The filter -/

inductive CaptureRc
  | ok
  | declined
  | error
  deriving DecidableEq, Repr

/-- What a call did with its block; the code does not read it. -/
structure BlockUse where
  base : ℕ
  size : ℕ
  total : ℕ
  nbufs : ℕ
  cursor : Cursor

structure Captured where
  ctx : Ctx
  pool : Pool
  rc : CaptureRc
  last : Bool
  block : Option BlockUse

/-- `ngx_http_cache_turbo_body_filter_capture`. -/
def bodyFilterCapture (maxSize : ℕ) (ctx : Ctx) (pool : Pool) (call : Call) : Captured :=
  match scan maxSize ctx.bodyLen call.chain 0 0 false with
  | .fileBacked | .oversize => ⟨abandon ctx, pool, .declined, false, none⟩
  | .counted total nbufs last =>
      if nbufs = 0 then ⟨ctx, pool, .ok, last, none⟩
      else
        match blockSize total nbufs with
        | none => ⟨ctx, pool, .error, last, none⟩
        | some size =>
            match pnalloc pool call.room size with
            | none => ⟨ctx, pool, .error, last, none⟩
            | some (block, pool) =>
                let c := copyPass block ctx pool call.chain
                { ctx := { c.ctx with bodyLen := (c.ctx.bodyLen + total) % sizeTWords }
                  pool := c.pool
                  rc := .ok
                  last := last
                  block := some ⟨call.base, size, total, nbufs, c.cursor⟩ }

/-- The bytes of a buffer of the captured chain. -/
def pieceBytes (pool : Pool) (link : LinkId) : Bytes :=
  readRange (pool.payload (pool.buf link).block) (pool.buf link).pos (pool.buf link).last

/-- The captured chain, as `ngx_http_cache_turbo_body_filter_blob_write` walks it.  The number of
links is never what ends the walk. -/
def bodyBytes (ctx : Ctx) (pool : Pool) : Bytes :=
  (TailList.walk pool.next pool.links ctx.body).flatMap (pieceBytes pool)

/-- A call of the filter: what it leaves, whether it passes its own error on, and the body that
it has `body_filter_store_tail` store, if it calls that. -/
structure Filtered where
  ctx : Ctx
  pool : Pool
  failed : Bool
  stored : Option Bytes
  block : Option BlockUse

/-- The filter captures. -/
def capturing (ctx : Ctx) : Bool := !ctx.sieServing && ctx.captured && !ctx.served

/-- `ngx_http_cache_turbo_body_filter`; `sie_emit` and `forward_body` leave the capture alone. -/
def bodyFilter (maxSize : ℕ) (ctx : Ctx) (pool : Pool) (call : Call) : Filtered :=
  if ctx.sieServing then ⟨ctx, pool, false, none, none⟩
  else if !ctx.captured || ctx.served then ⟨ctx, pool, false, none, none⟩
  else
    let c := bodyFilterCapture maxSize ctx pool call
    match c.rc with
    | .error => ⟨c.ctx, c.pool, true, none, c.block⟩
    | .declined => ⟨c.ctx, c.pool, false, none, c.block⟩
    | .ok =>
        let store := c.last && decide (maxSize = 0 ∨ c.ctx.bodyLen ≤ maxSize)
        ⟨c.ctx, c.pool, false, if store then some (bodyBytes c.ctx c.pool) else none, c.block⟩

end BodyCapture
end Http
end CacheTurbo
