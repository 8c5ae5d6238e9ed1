/-
# Delivery

The ways a stored body reaches a client.  `ngx_http_cache_turbo_serve` delivers
in the access phase and is called from ten places, each with its own blob and
its own `X-Cache` reason (`ngx_http_cache_turbo_access.c`);
`ngx_http_cache_turbo_sie_rewrite` puts a stored body in the place of an origin
error and is called from the header filter (`try_sie`).  Both hand the blob to
`ngx_http_cache_turbo_restore_response`.

The allocations of a request's pool are a parameter (`Pool`).  What is restored
is the validated blob; which of its headers are let through again, and the
answer to a conditional request, are not part of the model.
-/

import CacheTurbo.Blob.Codec
import CacheTurbo.Http.Vary
import CacheTurbo.Shm.Breaker

namespace CacheTurbo
namespace Http

open Bytes Blob
open Shm (getU32 getU64 timeOfU64)

/-- `NGX_HTTP_CACHE_TURBO_SR_*`. -/
inductive ServeReason
  | none
  | fresh
  | stale
  | staleIfError
  | staleBreaker
  | breaker503
  deriving DecidableEq, Repr

/-- A stored response on its way to a client. -/
structure Delivered where
  blob : ValidBlob
  reason : ServeReason
  deriving DecidableEq, Repr

/-- The answer of a delivery routine. -/
inductive ServeRc
  | declined
  | error
  | done (d : Delivered)
  deriving DecidableEq, Repr

/-- What the pool of a request grants: the cleanup record of a pinned body, and
everything the restore asks for. -/
structure Pool where
  cleanupOk : Bool
  restoreOk : Bool
  deriving DecidableEq, Repr

/-! ## The guards -/

/-- A request with credentials, and a blob without the mark of RFC 9111, 3.5. -/
def authRefused (r : Request) (flags : ℕ) : Bool :=
  r.headersIn.authorization.isSome && !hasFlag flags blobfAuthShareable

/-- A blob from a `HEAD` exchange, and a request for a body. -/
def headRefused (r : Request) (flags : ℕ) : Bool :=
  hasFlag flags blobfHeadDerived && r.method != .head

/-- An origin-encoded body, and a request that does not accept its coding. -/
def encodedRefused (r : Request) (flags : ℕ) : Bool :=
  hasFlag flags blobfOriginEncoded &&
    (flagsAeClass flags == aeClassIdentity || !aeClassAccepted r (flagsAeClass flags))

/-- The three refusals that both routines make. -/
def requestRefused (r : Request) (flags : ℕ) : Bool :=
  authRefused r flags || headRefused r flags || encodedRefused r flags

/-- The refusal that only `serve` makes. -/
def breakerOnlyRefused (flags : ℕ) (xcache : ServeReason) : Bool :=
  hasFlag flags blobfBreakerOnly && xcache != .staleBreaker

/-- `blobf` bits of a blob, read in place. -/
def blobFlags (copy : Bytes) : ℕ := getU16 copy 6

/-! ## The two routines -/

/-- `ngx_http_cache_turbo_restore_response`. -/
def restoreResponse (pool : Pool) (now : Time) (copy : Bytes) (xcache : ServeReason) :
    Option Delivered :=
  match blobValidate now copy with
  | none => none
  | some v => if pool.restoreOk then some ⟨v, xcache⟩ else none

/-- The answer after `restore_response`. -/
def ServeRc.ofRestore : Option Delivered → ServeRc
  | some d => .done d
  | none => .error

/-- The reason `serve` restores under. -/
def serveReason (stale : Bool) (xcache : ServeReason) : ServeReason :=
  if xcache ≠ .none then xcache else if stale then .stale else .fresh

/-- `ngx_http_cache_turbo_serve`; `pinned` is `ref_data != NULL`. -/
def serve (pool : Pool) (now : Time) (r : Request) (copy : Bytes) (stale pinned : Bool)
    (xcache : ServeReason) : ServeRc :=
  if pinned && !pool.cleanupOk then .error
  else if copy.length ≥ blobHdrWire ∧
      (breakerOnlyRefused (blobFlags copy) xcache || requestRefused r (blobFlags copy)) then
    .declined
  else .ofRestore (restoreResponse pool now copy (serveReason stale xcache))

/-- `ngx_http_cache_turbo_sie_rewrite`: the flag `BREAKER_ONLY` is not looked at. -/
def sieRewrite (pool : Pool) (now : Time) (r : Request) (snap : Bytes) : ServeRc :=
  if snap.length ≥ blobHdrWire ∧ requestRefused r (blobFlags snap) then .declined
  else .ofRestore (restoreResponse pool now snap .staleIfError)

/-! ## Stale on error -/

/-- `NGX_HTTP_CACHE_TURBO_USE_STALE_*`. -/
def useStaleError : ℕ := 0x0001

def useStaleTimeout : ℕ := 0x0002

def useStaleHttp403 : ℕ := 0x0004

def useStaleHttp404 : ℕ := 0x0008

def useStaleHttp429 : ℕ := 0x0010

def useStaleHttp500 : ℕ := 0x0020

def useStaleHttp502 : ℕ := 0x0040

def useStaleHttp503 : ℕ := 0x0080

def useStaleHttp504 : ℕ := 0x0100

def useStaleAny5xx : ℕ := 0x0200

/-- The condition a status stands for in `use_stale_triggers`. -/
def useStaleBit (status : ℕ) (transportFailure : Bool) : ℕ :=
  match status with
  | 403 => useStaleHttp403
  | 404 => useStaleHttp404
  | 429 => useStaleHttp429
  | 500 => useStaleHttp500
  | 502 => if transportFailure then useStaleHttp502 ||| useStaleError else useStaleHttp502
  | 503 => useStaleHttp503
  | 504 => if transportFailure then useStaleHttp504 ||| useStaleTimeout else useStaleHttp504
  | _ => if status ≥ 500 ∧ status ≤ 599 then useStaleAny5xx else 0

/-- `ngx_http_cache_turbo_use_stale_triggers`. -/
def useStaleTriggers (mask status : ℕ) (transportFailure : Bool) : Bool :=
  mask &&& useStaleBit status transportFailure != 0

/-- The test of `access_l1_sie_arm` and of `access_l2_expired_arm`: the
stale-if-error window in the blob's own header. -/
def sieWindowOpen (now : Time) (data : Bytes) : Bool :=
  let created := timeOfU64 (getU64 data 24)
  let sieTtl := getU32 data 40
  decide (data.length > 0) && decide (sieTtl > 0) && decide (now < created + sieTtl)

/-- `ctx->sie_snap` after an arm at time `now`, when none was armed before. -/
def sieArm (now : Time) (data : Bytes) : Option Bytes :=
  if sieWindowOpen now data then some data else none

/-- An error response of the origin, as the header filter sees it. -/
structure OriginError where
  status : ℕ
  transportFailure : Bool
  deriving DecidableEq, Repr

/-- `ngx_http_cache_turbo_header_filter_try_sie` for the armed snapshot `snap`. -/
def trySie (pool : Pool) (now : Time) (r : Request) (useStale : ℕ) (snap : Option Bytes)
    (sieServing : Bool) (e : OriginError) : ServeRc :=
  match snap with
  | none => .declined
  | some snap =>
      if !sieServing && useStaleTriggers useStale e.status e.transportFailure then
        sieRewrite pool now r snap
      else .declined

/-! ## The sites -/

/-- `NGX_HTTP_CACHE_TURBO_BRK_ACT_*`. -/
inductive BrkAction
  | pass
  | serve
  | fail
  | probe
  deriving DecidableEq, Repr

/-- `ngx_http_cache_turbo_breaker_action`. -/
def breakerAction (state : ℕ) (hasBody : Bool) : BrkAction :=
  if state = Shm.breakerHalfOpen then .probe
  else if state ≠ Shm.breakerOpen then .pass
  else if hasBody then .serve
  else .fail

/-- Every place that delivers a stored body, with what it tests there. -/
inductive Site
  /-- `access_l1_serve_fresh`. -/
  | l1Fresh
  /-- `access_l1_serve_stale`, after the cross-node lock was won. -/
  | crossNodeStale
  /-- `access_l1_serve_stale`, with a background refresh. -/
  | refreshStale
  /-- `access_l1_serve_stale`. -/
  | l1Stale
  /-- `access_l2_promote_serve`, with the freshness that is left. -/
  | l2Hit (remFresh : Time)
  /-- `access_only_if_cached`: the breaker's state, for an armed fallback. -/
  | onlyIfCached (consult armed : Bool) (state : ℕ)
  /-- `access_breaker_gate`: the breaker's verdict. -/
  | breakerGate (state : ℕ) (armed : Bool)
  /-- The cold miss that raced to a fresh entry, under the claim and under its own lock. -/
  | coldFresh
  /-- The end of the wait of a cold miss, with a snapshot armed at `armedAt`. -/
  | coldWaitTimeout (armedAt : Time)
  /-- The header filter, with a snapshot armed at `armedAt`. -/
  | originError (armedAt : Time) (useStale : ℕ) (sieServing : Bool) (e : OriginError)
  deriving DecidableEq, Repr

/-- What is delivered to `r` at a site whose stored bytes are `copy`. -/
def deliver (pool : Pool) (now : Time) (r : Request) (copy : Bytes) : Site → ServeRc
  | .l1Fresh => serve pool now r copy false true .none
  | .crossNodeStale => serve pool now r copy true false .none
  | .refreshStale => serve pool now r copy true false .none
  | .l1Stale => serve pool now r copy true true .none
  | .l2Hit remFresh => serve pool now r copy (decide (remFresh ≤ 0)) false .none
  | .onlyIfCached consult armed state =>
      if consult && armed && state == Shm.breakerOpen then
        serve pool now r copy true false .staleBreaker
      else .declined
  | .breakerGate state armed =>
      if breakerAction state armed = .serve then serve pool now r copy true false .staleBreaker
      else .declined
  | .coldFresh => serve pool now r copy false true .none
  | .coldWaitTimeout armedAt =>
      match sieArm armedAt copy with
      | some snap => serve pool now r snap true false .staleIfError
      | none => .declined
  | .originError armedAt useStale sieServing e =>
      trySie pool now r useStale (sieArm armedAt copy) sieServing e

end Http
end CacheTurbo
