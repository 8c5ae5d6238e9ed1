/-
# The access handler

`ngx_http_cache_turbo_access_handler`, phase by phase, from the lookup in the zone to the
claim of a cold miss (`ngx_http_cache_turbo_access.c`).  Every resume of a parked request runs
it from the beginning, with the context the last pass left: the key is derived anew, and flags
decide what becomes of a reply that has come in between.

A pass reads a zone and a context and leaves a zone, a context, and a list of what it did
(`Deed`), newest first.  What the outside decides in a pass is given (`Env`): the time,
whether a command reaches the wire, the room in the request's pool, the verdicts of the
request's own freshness bounds, the breaker's answer.  Other workers run between any two
critical sections of a pass (`Gap`).  The counters and the index of variants are not followed.
-/

import CacheTurbo.Http.StoredVariant
import CacheTurbo.Http.Revalidate
import CacheTurbo.Http.Serve
import CacheTurbo.L2.ScanDel
import CacheTurbo.Shm.Lifetime

namespace CacheTurbo
namespace Http
namespace Access

open Bytes Blob
open Shm (Zone Rbtree BlobId L1Req L1Verdict Loans)

/-! ## Configuration and context -/

/-- What the handler reads of the location. -/
structure Conf where
  autoVary : Bool
  backend : L2.ScanDel.Backend
  l2NegativeTtl : Time
  /-- `cache_turbo_vary_marker_revalidate`. -/
  markerRevalidate : Time
  /-- `ngx_http_cache_turbo_breaker_should_consult`. -/
  breaker : Bool
  minUses : ℤ
  minUsesWindow : Time
  lock : Bool
  backgroundUpdate : Bool
  deriving DecidableEq, Repr

/-- `clcf->backend`: every backend has a `get`. -/
def Conf.hasGet (conf : Conf) : Bool := conf.backend != .none

/-- `backend->lock`. -/
def Conf.hasLock (conf : Conf) : Bool := conf.backend == .redis

/-- A stored body and the key it was found under, in the zone or in the second level. -/
inductive Body
  | zone (keyHash : KeyHash) (body : BlobId)
  | l2 (keyHash : KeyHash) (blob : Bytes)
  deriving DecidableEq, Repr

/-- The bytes of a body. -/
def Body.bytes (z : Zone) : Body → Bytes
  | .zone _ b => (z.blob b).body
  | .l2 _ blob => blob

/-- The fields of `ngx_http_cache_turbo_ctx_t` that the handler keeps from one pass to the
next.  `brk_snap` and `sie_snap` are NULL where nothing is armed. -/
structure Ctx where
  keyHash : KeyHash
  varyGen : ℕ
  markerL1Miss : Bool
  markerRevalidate : Bool
  markerRevalidateInflight : Bool
  markerL2Tried : Bool
  markerL2Done : Bool
  markerL2Down : Bool
  markerL2Bits : ℕ
  markerL2Gen : ℕ
  l2Done : Bool
  l2Result : Rc
  l2Blob : Option Bytes
  l2NegSkipped : Bool
  l2NegForce : Bool
  l2MissCounted : Bool
  l2PresentUnserveable : Bool
  reqOnlyIfCached : Bool
  reqReval : Bool
  brkArmDone : Bool
  brkSnap : Option Body
  /-- `ctx->brk_action`, once the breaker was consulted. -/
  brkAction : Option BrkAction
  sieSnap : Option Body
  minUsesPassed : Bool
  minUsesSkip : Bool
  /-- `ctx->lock_result`, once the reply has come. -/
  lockReply : Option Rc
  lockOwnerRand : ℕ
  pendingL1Owner : ℕ
  waiting : Bool
  waitPolled : Bool
  waitCleanup : Bool
  coldWinner : Bool
  coldOwner : ℕ
  coldStored : Bool
  /-- A cleanup of the pool ends the lease (`ngx_http_cache_turbo_cold_cleanup`). -/
  coldCleanup : Bool
  deriving DecidableEq, Repr

/-- A context as it is allocated. -/
def Ctx.fresh (onlyIfCached : Bool) : Ctx where
  keyHash := Vector.replicate 32 0
  varyGen := 0
  markerL1Miss := false
  markerRevalidate := false
  markerRevalidateInflight := false
  markerL2Tried := false
  markerL2Done := false
  markerL2Down := false
  markerL2Bits := 0
  markerL2Gen := 0
  l2Done := false
  l2Result := .ok
  l2Blob := none
  l2NegSkipped := false
  l2NegForce := false
  l2MissCounted := false
  l2PresentUnserveable := false
  reqOnlyIfCached := onlyIfCached
  reqReval := false
  brkArmDone := false
  brkSnap := none
  brkAction := none
  sieSnap := none
  minUsesPassed := false
  minUsesSkip := false
  lockReply := none
  lockOwnerRand := 0
  pendingL1Owner := 0
  waiting := false
  waitPolled := false
  waitCleanup := false
  coldWinner := false
  coldOwner := 0
  coldStored := false
  coldCleanup := false

/-- A context of this request that an internal redirect has replaced, and whose cleanup is in
the pool still. -/
structure Former where
  keyHash : KeyHash
  coldWinner : Bool
  coldOwner : ℕ
  coldStored : Bool
  deriving DecidableEq, Repr

/-- Where other workers run in the middle of a pass: before a critical section, or a read of the
zone. -/
inductive Gap
  | lookup
  | marker
  | markerMemo
  | memo
  | reply
  | account
  | onlyIfCached
  | breaker
  | minUses
  | cold
  | claimed
  deriving DecidableEq, Repr

/-- What the outside decides in one pass.  What `l1` says of the marker, the lock and the arms
is replaced by what the context says. -/
structure Env where
  now : Time
  others : Gap → List Shm.Event
  /-- What the pool grants to `ngx_http_cache_turbo_serve`. -/
  pool : Pool
  l1 : L1Req
  /-- The entry that the zone has fails the request's bounds, though one of its windows is open. -/
  l1Reval : Bool
  /-- Whether the two `GET`s and the lock command can be sent. -/
  markerSent : Bool
  objectSent : Bool
  lockSent : Bool
  /-- The owner value of a lock attempt. -/
  lockRand : ℕ
  /-- The date of a marker that is written. -/
  date : HttpDate
  l2FreshOk : Bool
  l2StaleOk : Bool
  /-- The pool has room for a snapshot of a blob, for the cleanup of a winner and for that of
  the timer. -/
  snapRoom : Bool
  winnerRoom : Bool
  waitRoom : Bool
  /-- What `ngx_http_cache_turbo_shm_breaker_state` answers, and the word it leaves. -/
  brkState : ℕ
  brkWord : ℕ
  /-- The wait has lasted `lock_timeout`. -/
  waitOver : Bool

/-! ## What a pass does -/

/-- Where a parked request waits. -/
inductive Waits
  | markerGet
  | objectGet
  | lock
  | timer
  deriving DecidableEq, Repr

/-- Why the request goes to the origin. -/
inductive Miss
  /-- A stale entry whose refresh is this request's. -/
  | regenerate
  | probe
  /-- The guards of `ngx_http_cache_turbo_serve` refuse the body. -/
  | refused
  | minUses
  /-- The entry became fresh, but is not served. -/
  | raced
  | winner
  | adopted
  | waited
  | plain
  deriving DecidableEq, Repr

/-- How a pass ends. -/
inductive End
  | served (body : Option Body) (d : Delivered)
  | origin (miss : Miss)
  | parked (waits : Waits)
  | gatewayTimeout
  | unavailable
  | error
  deriving DecidableEq, Repr

/-- What a pass does with the second level. -/
inductive Deed
  /-- A `GET` is sent. -/
  | asked (keyHash : KeyHash)
  /-- It is left out because of a miss that is remembered. -/
  | skipped (keyHash : KeyHash)
  /-- The reply is a marker: its axes and generation are taken, and it is written to the zone. -/
  | resolved (markerKey : KeyHash) (bits gen : ℕ)
  /-- The reply says that the marker is gone, and the zone's copy is dropped. -/
  | dropped (markerKey : KeyHash)
  /-- The reply is a miss, which is remembered. -/
  | memo (keyHash : KeyHash)
  /-- The reply is a response: it is put in the zone and served, or kept for an outage. -/
  | promoted (keyHash : KeyHash) (blob : Bytes)
  | armed (keyHash : KeyHash) (blob : Bytes)
  deriving DecidableEq, Repr

/-- A pass on its way. -/
structure Pass where
  /-- The zone, and what other requests have in hand. -/
  others : Loans
  /-- The references of this request: each has a cleanup in the pool. -/
  pins : List BlobId
  ctx : Ctx
  /-- `hash`, the checksum of the key when the zone was looked up. -/
  hash : UInt32
  former : List Former
  /-- The leases of cold misses that claims have granted to the request, newest first; the code
  keeps no such list. -/
  granted : List (KeyHash × ℕ)
  deeds : List Deed

/-- The pass goes on to the next phase, or is over. -/
abbrev Step := Pass × Option End

/-- The next phase, if the pass goes on. -/
def Step.andThen (s : Step) (next : Pass → Step) : Step :=
  match s.2 with
  | some _ => s
  | none => next s.1

theorem Step.andThen_ended {s : Step} {e : End} (h : s.2 = some e) (next : Pass → Step) :
    s.andThen next = s := by
  rw [andThen, h]

theorem Step.andThen_goesOn {s : Step} (h : s.2 = none) (next : Pass → Step) :
    s.andThen next = next s.1 := by
  rw [andThen, h]

/-- The zone. -/
def Pass.zone (p : Pass) : Zone := p.others.zone

/-- A pass whose context is changed. -/
def Pass.setCtx (p : Pass) (f : Ctx → Ctx) : Pass := { p with ctx := f p.ctx }

/-- A pass whose zone is changed. -/
def Pass.setZone (p : Pass) (z : Zone) : Pass :=
  { p with others := { p.others with zone := z } }

/-- References that an operation of the zone has taken. -/
def Pass.pin (p : Pass) (bs : List BlobId) : Pass := { p with pins := bs ++ p.pins }

/-- `ngx_http_cache_turbo_blob_release`; the last reference leaves its free to run. -/
def blobRelease (s : Loans) (b : BlobId) : Loans :=
  let r := Shm.blobReleaseDrop s.zone b
  { s with zone := r.1, frees := r.2.toList ++ s.frees }

/-- A reference that is given back before the pool is destroyed. -/
def Pass.release (p : Pass) (b : BlobId) : Pass :=
  { p with others := blobRelease p.others b, pins := p.pins.erase b }

/-- A claim is answered: a winner has a lease, unless the zone had no room for it. -/
def Pass.grant (p : Pass) (answer : Shm.ClaimAnswer) : Pass :=
  { p with granted :=
      (if answer.verdict = .winner ∧ answer.owner ≠ 0 then [(p.ctx.keyHash, answer.owner)]
        else []) ++ p.granted }

/-- A pass that does something. -/
def Pass.did (p : Pass) (d : Deed) : Pass := { p with deeds := d :: p.deeds }

/-- The breaker word says open, as a pure read. -/
def brkOpen (conf : Conf) (z : Zone) : Bool :=
  conf.breaker && (Shm.brkState z.breakerState == Shm.breakerOpen)

/-- The same for a reference that there may be. -/
def Pass.unref (p : Pass) : Option BlobId → Pass
  | some b => p.release b
  | none => p

/-- Other workers run. -/
def Pass.meanwhile (rb : Rbtree) (env : Env) (gap : Gap) (p : Pass) : Pass :=
  { p with others := Run.after (Loans.step rb) p.others (env.others gap) }

section Phases

variable (rb : Rbtree) (digest : Bytes → KeyHash) (crc : KeyHash → UInt32) (conf : Conf)
  (r : Request) (base : Bytes) (env : Env)

/-- A call of `ngx_http_cache_turbo_serve`.  A reference that is handed to it is given back at
once where its cleanup cannot be registered, or a guard refuses the body. -/
def serve (ref : Option BlobId) (body : Option Body) (stale : Bool) (reason : ServeReason)
    (p : Pass) : Step :=
  let copy := (body.map (Body.bytes p.zone)).getD []
  match Http.serve env.pool env.now r copy stale ref.isSome reason with
  | .done d => (p, some (.served body d))
  | .declined => (p.unref ref, some (.origin .refused))
  | .error => (if env.pool.cleanupOk then p else p.unref ref, some .error)

/-! ## The first level -/

/-- What `vary_apply` reads beside the zone. -/
def Ctx.policy (z : Zone) (ctx : Ctx) : MarkerPolicy :=
  ⟨conf.markerRevalidate, ctx.markerL2Done, brkOpen conf z, ctx.markerL2Bits, ctx.markerL2Gen⟩

/-- The key of the request, from the zone: `build_key`, the gate, `vary_apply` and the marker
that the second level has answered with.  A lookup that finds no marker leaves
`vary_marker_revalidate` as it is. -/
def resolve (z : Zone) (ctx : Ctx) : Ctx :=
  let v := accessL1Key digest crc conf.autoVary z r base env.now (ctx.policy conf z)
  { ctx with
    keyHash := v.keyHash
    varyGen := v.varyGen
    markerL1Miss := if conf.autoVary then v.l1Miss else ctx.markerL1Miss
    markerRevalidate := if conf.autoVary && !v.l1Miss then v.revalidate
      else ctx.markerRevalidate }

/-- What the lookup of the zone is told. -/
def l1Req (ctx : Ctx) : L1Req :=
  { env.l1 with
    revalidate := ctx.markerRevalidate || ctx.markerRevalidateInflight
    lockResult := ctx.lockReply
    backgroundUpdate := conf.backgroundUpdate
    brkArm := env.l1.brkArm && conf.breaker && !ctx.brkArmDone
    sieArm := env.l1.sieArm && ctx.sieSnap.isNone }

/-- A lock attempt: the owner value is drawn before the command is sent. -/
def lock (p : Pass) : Pass × Bool :=
  if conf.hasLock then (p.setCtx ({ · with lockOwnerRand := env.lockRand }), env.lockSent)
  else (p, false)

/-- The snapshots of a body that is past its life; the body is that of the zone. -/
def armL1 (q : L1Req) (armed : List BlobId) (ctx : Ctx) : Ctx :=
  let sie := decide (armed.length > if q.brkArm then 1 else 0)
  { ctx with
    brkSnap := if q.brkArm then (armed.getLast?.map fun b => .zone ctx.keyHash b).or ctx.brkSnap
      else ctx.brkSnap
    brkArmDone := ctx.brkArmDone || (q.brkArm && !armed.isEmpty)
    sieSnap := if sie then armed.head?.map fun b => .zone ctx.keyHash b else ctx.sieSnap }

/-- `ngx_http_cache_turbo_access_l1_req_bounds`, for the request's context. -/
def l1ReqBounds (verdict : L1Verdict) (ctx : Ctx) : Ctx :=
  { ctx with reqReval := ctx.reqReval || (decide (verdict ≠ .miss) && env.l1Reval) }

/-- The lock was won, or Redis is out of reach. -/
def Ctx.lockWon (ctx : Ctx) : Bool := ctx.lockReply == some .ok || ctx.lockReply == some .error

/-- What the verdict of the lookup comes to: `ngx_http_cache_turbo_access_l1_serve_fresh`,
`_l1_serve_stale`, and the arms for the breaker and for an origin error. -/
def l1Answer (q : L1Req) (verdict : L1Verdict) (p : Pass) : Step :=
  match verdict with
  | .miss => (p, none)
  | .expired armed => ((p.pin armed).setCtx (armL1 q armed), none)
  | .error => (p, some .error)
  | .hit body =>
      serve r env body (body.map (.zone p.ctx.keyHash)) false .none (p.pin body.toList)
  | .stale body =>
      -- a winner has registered the cleanup itself
      serve r env (if p.ctx.lockWon then none else body) (body.map (.zone p.ctx.keyHash)) true
        .none (p.pin body.toList)
  | .regenerate => (p, some (.origin .regenerate))
  | .refresh body =>
      match lock conf env (p.pin body.toList) with
      | (p, true) => (p, some (.parked .lock))
      | (p, false) =>
          if conf.backgroundUpdate then
            serve r env none (body.map (.zone p.ctx.keyHash)) true .none p
          else (p, some (.origin .regenerate))

/-- `ngx_http_cache_turbo_access_l1`, from the lookup on. -/
def l1Lookup (p : Pass) : Step :=
  let q := l1Req conf env p.ctx
  let a := Shm.accessL1 p.zone p.ctx.keyHash p.hash env.now q
  l1Answer conf r env q a.2 ((p.setZone a.1).setCtx (l1ReqBounds env a.2))

/-- `ngx_http_cache_turbo_access_l1`. -/
def l1 (p : Pass) : Step :=
  let ctx := resolve digest crc conf r base env p.zone p.ctx
  l1Lookup conf r env
    ({ p with ctx := ctx, hash := crc ctx.keyHash }.meanwhile rb env .lookup)

/-! ## The second level -/

/-- The reply is read as that of the marker's `GET`. -/
def Ctx.takesMarker (ctx : Ctx) : Bool :=
  ctx.markerL2Tried && ctx.l2Done && (ctx.markerL1Miss || ctx.markerRevalidateInflight)

/-- The marker in a reply, for a request that resolved to the generation `gen`: its axes, its
generation, and what is left of its two windows. -/
def markerReply (now : Time) (revalidate : Bool) (gen : ℕ) (blob : Bytes) :
    Option (ℕ × ℕ × Time × Time) :=
  match blobValidate now blob with
  | none => none
  | some v =>
      if v.hdr.headersLen = 0 ∧ v.hdr.bodyLen = 2 then
        let bits := (blob.getD blobHdrWire 0).toNat
        let markerGen := (blob.getD (blobHdrWire + 1) 0).toNat
        -- an older generation than the one in the zone is not believed
        if revalidate ∧ bits > 0 ∧ markerGen < gen then none
        else if bits > 0 then
          let rem := l2Remaining now v.hdr
          some (bits, markerGen, rem.1, rem.2)
        else none
      else none

/-- `ngx_http_cache_turbo_access_l2_marker_resolve`. -/
def l2MarkerResolve (p : Pass) (bits gen : ℕ) (remFresh remStale : Time) : Pass :=
  let markerKey := markerHash digest base
  let m := markerStoreKey rb p.zone markerKey (crc markerKey) env.now env.date.1 bits gen
    (if remFresh > 0 then remFresh else 1) remStale
  ((p.setZone m.1).setCtx fun ctx => { ctx with
    keyHash := variantHash digest r base bits gen
    varyGen := gen
    markerL2Bits := bits
    markerL2Gen := gen }).did (.resolved markerKey bits gen)

/-- The reply of the marker's `GET`, as the request with the context `ctx` reads it. -/
def Ctx.markerReply (ctx : Ctx) : Option (ℕ × ℕ × Time × Time) :=
  if ctx.l2Result = .ok then
    ctx.l2Blob.bind (Access.markerReply env.now ctx.markerRevalidateInflight ctx.varyGen)
  else none

/-- The part of `ngx_http_cache_turbo_access_l2_marker_consume` that reads the reply. -/
def l2MarkerRead (p : Pass) : Pass :=
  let markerKey := markerHash digest base
  let revalidate := p.ctx.markerRevalidateInflight
  match p.ctx.markerReply env with
  | some (bits, gen, remFresh, remStale) =>
      if remStale > 0 then l2MarkerResolve rb digest crc r base env p bits gen remFresh remStale
      else p
  | none =>
      if revalidate ∧ p.ctx.l2Result = .declined then
        ((p.setZone (Shm.purgeKey rb p.zone markerKey).1).setCtx fun ctx => { ctx with
          keyHash := digest base
          varyGen := 0
          markerL2Bits := 0
          markerL2Gen := 0 }).did (.dropped markerKey)
      else if ¬ revalidate ∧ conf.l2NegativeTtl > 0 ∧ p.ctx.l2Result = .declined then
        (p.setZone (Shm.l2NegSet rb p.zone markerKey (crc markerKey) env.now
          conf.l2NegativeTtl)).did (.memo markerKey)
      else p

/-- `ngx_http_cache_turbo_access_l2_marker_consume`: the two flags go in any case, the reply
only when it is read. -/
def l2MarkerConsume (p : Pass) : Pass :=
  if !p.ctx.markerL2Tried || !p.ctx.l2Done then p
  else
    let down := decide (p.ctx.l2Result = .error)
    let read := if p.ctx.takesMarker then
      (l2MarkerRead rb digest crc conf r base env p).setCtx fun ctx => { ctx with
        l2Done := false, l2Result := .ok, l2Blob := none }
      else p
    read.setCtx fun ctx => { ctx with
      markerL2Tried := false
      markerRevalidateInflight := false
      markerL2Down := ctx.markerL2Down || down }

/-- `ngx_http_cache_turbo_access_l2_marker_get`. -/
def l2MarkerGet (p : Pass) : Step :=
  let markerKey := markerHash digest base
  let revalidate := p.ctx.markerRevalidate
  if !conf.autoVary || (!p.ctx.markerL1Miss && !revalidate) || p.ctx.markerL2Tried ||
      p.ctx.markerL2Done || !conf.hasGet then (p, none)
  else
    let checked := if !revalidate && decide (conf.l2NegativeTtl > 0) then
      Shm.l2NegCheck p.zone markerKey (crc markerKey) env.now else (p.zone, .ok)
    let p := p.setZone checked.1
    if checked.2 = .declined then
      ((p.setCtx ({ · with markerL1Miss := false, markerL2Done := true })).did
        (.skipped markerKey), none)
    else
      let p := p.setCtx fun ctx => { ctx with
        markerRevalidateInflight := ctx.markerRevalidateInflight || revalidate
        markerL1Miss := false
        markerL2Tried := true
        markerL2Done := true }
      if env.markerSent then (p.did (.asked markerKey), some (.parked .markerGet)) else (p, none)

/-- `ngx_http_cache_turbo_access_l2_neg_memo`. -/
def l2NegMemo (p : Pass) : Pass :=
  if conf.hasGet && !p.ctx.l2Done && !p.ctx.l2NegForce && decide (conf.l2NegativeTtl > 0) then
    let checked := Shm.l2NegCheck p.zone p.ctx.keyHash (crc p.ctx.keyHash) env.now
    let p := p.setZone checked.1
    if checked.2 = .declined then
      (p.setCtx ({ · with l2Done := true, l2Result := .declined, l2NegSkipped := true })).did
        (.skipped p.ctx.keyHash)
    else p
  else p

/-- `ngx_http_cache_turbo_access_l2_get`. -/
def l2Get (p : Pass) : Step :=
  if p.ctx.markerL2Down then
    (p.setCtx ({ · with l2Done := true, l2Result := .error }), none)
  else if conf.hasGet && !p.ctx.l2Done && env.objectSent then
    (p.did (.asked p.ctx.keyHash), some (.parked .objectGet))
  else (p, none)

/-- The snapshots of a blob that is past its life. -/
def armL2 (brk snap : Bool) (body : Body) (ctx : Ctx) : Ctx :=
  { ctx with
    brkSnap := if brk then some body else ctx.brkSnap
    brkArmDone := ctx.brkArmDone || brk
    sieSnap := if snap then some body else ctx.sieSnap
    l2PresentUnserveable := true }

/-- `ngx_http_cache_turbo_access_l2_expired_arm`. -/
def l2ExpiredArm (sie : Bool) (blob : Bytes) (p : Pass) : Pass :=
  let brk := conf.breaker && !p.ctx.brkArmDone
  let snap := sie && env.snapRoom && p.ctx.sieSnap.isNone
  let armed := p.setCtx (armL2 brk snap (.l2 p.ctx.keyHash blob))
  if brk || snap then armed.did (.armed p.ctx.keyHash blob) else armed

/-- `ngx_http_cache_turbo_access_l2` from the reply on. -/
def l2Reply (p : Pass) : Step :=
  if p.ctx.l2Done ∧ p.ctx.l2Result = .ok then
    match p.ctx.l2Blob with
    | none => (p, none)
    | some blob =>
        match accessL2 env.now env.l2FreshOk env.l2StaleOk blob with
        | .miss => (p, none)
        | .expired sie => (l2ExpiredArm conf env sie blob p, none)
        | .revalidate => (p.setCtx ({ · with reqReval := true }), none)
        | .promote remFresh remStale =>
            serve r env none (some (.l2 p.ctx.keyHash blob)) (decide (remFresh ≤ 0)) .none
              ((p.setZone (Shm.storeIf rb p.zone p.ctx.keyHash (crc p.ctx.keyHash) env.now blob
                remFresh remStale .newer false).1).did (.promoted p.ctx.keyHash blob))
  else (p, none)

/-- `ngx_http_cache_turbo_access_l2`; its checksum follows the marker of the second level, that
of its caller does not. -/
def l2 (p : Pass) : Step :=
  let p := l2MarkerConsume rb digest crc conf r base env (p.meanwhile rb env .marker)
  (l2MarkerGet digest crc conf base env (p.meanwhile rb env .markerMemo)).andThen fun p =>
    (l2Get conf env (l2NegMemo crc conf env (p.meanwhile rb env .memo))).andThen fun p =>
      l2Reply rb crc conf r env (p.meanwhile rb env .reply)

/-- `ngx_http_cache_turbo_access_l2_miss_account`. -/
def l2MissAccount (p : Pass) : Pass :=
  if conf.hasGet && p.ctx.l2Done && !p.ctx.l2MissCounted then
    let p := p.setCtx ({ · with l2MissCounted := true })
    if conf.l2NegativeTtl > 0 ∧ p.ctx.l2NegSkipped = false ∧ p.ctx.l2Result = .declined then
      (p.setZone (Shm.l2NegSet rb p.zone p.ctx.keyHash p.hash env.now conf.l2NegativeTtl)).did
        (.memo p.ctx.keyHash)
    else p
  else p

/-! ## The gates -/

/-- `ngx_http_cache_turbo_access_only_if_cached`. -/
def onlyIfCached (p : Pass) : Step :=
  if p.ctx.reqOnlyIfCached then
    if p.ctx.brkSnap.isSome && brkOpen conf p.zone then
      serve r env none p.ctx.brkSnap true .staleBreaker p
    else (p, some .gatewayTimeout)
  else (p, none)

/-- The breaker is consulted once for the request. -/
def breakerConsult (p : Pass) : Pass × BrkAction :=
  match p.ctx.brkAction with
  | some action => (p, action)
  | none =>
      let action := breakerAction env.brkState p.ctx.brkSnap.isSome
      ((p.setZone { p.zone with breakerState := env.brkWord }).setCtx
        ({ · with brkAction := some action }), action)

/-- `ngx_http_cache_turbo_brk_ref_drop`. -/
def brkRefDrop (p : Pass) : Pass :=
  let p := match p.ctx.brkSnap with
    | some (.zone _ b) => p.release b
    | some (.l2 _ _) | none => p
  p.setCtx ({ · with brkSnap := none })

/-- `ngx_http_cache_turbo_access_breaker_gate`. -/
def breakerGate (p : Pass) : Step :=
  if conf.breaker then
    match breakerConsult env p with
    | (p, .probe) => (brkRefDrop p, some (.origin .probe))
    | (p, .pass) => (brkRefDrop p, none)
    | (p, .serve) => serve r env none p.ctx.brkSnap true .staleBreaker p
    | (p, .fail) => (p, some .unavailable)
  else (p, none)

/-- `ngx_http_cache_turbo_access_min_uses`. -/
def minUses (p : Pass) : Step :=
  if conf.minUses > 1 ∧ p.ctx.minUsesPassed = false ∧ p.ctx.lockReply = none ∧
      conf.lock = false then
    let c := Shm.countMiss rb p.zone p.ctx.keyHash p.hash env.now conf.minUses conf.minUsesWindow
    let p := p.setZone c.1
    if c.2 = .declined then
      (p.setCtx ({ · with minUsesSkip := true }), some (.origin .minUses))
    else (p.setCtx ({ · with minUsesPassed := true }), none)
  else (p, none)

/-! ## The cold miss -/

/-- `ngx_http_cache_turbo_cold_mark_winner`. -/
def coldMarkWinner (owner : ℕ) (p : Pass) : Pass :=
  if p.ctx.coldWinner then p
  else p.setCtx ({ · with
    coldWinner := true, coldOwner := owner, coldCleanup := env.winnerRoom })

/-- `ngx_http_cache_turbo_cold_wait`. -/
def coldWait (p : Pass) : Step :=
  let p := p.setCtx ({ · with waiting := true })
  if p.ctx.waitPolled && p.ctx.l2PresentUnserveable then
    (p.setCtx ({ · with waiting := false }), some (.origin .waited))
  else if env.waitOver then
    match p.ctx.sieSnap with
    | some snap =>
        serve r env none (some snap) true .staleIfError (p.setCtx ({ · with waiting := false }))
    | none => (p.setCtx ({ · with waiting := false }), some (.origin .waited))
  else
    -- the next pass asks the second level again
    let p := p.setCtx ({ · with
      l2Done := false
      l2NegSkipped := false
      l2NegForce := true
      l2Result := .error
      l2Blob := none })
    if !p.ctx.waitCleanup && !env.waitRoom then (p, some .error)
    else (p.setCtx ({ · with waitCleanup := true, waitPolled := true }), some (.parked .timer))

/-- `ngx_http_cache_turbo_cold_resume_locked`. -/
def coldResumeLocked (p : Pass) : Step :=
  if p.ctx.lockWon then (coldMarkWinner env p.ctx.pendingL1Owner p, some (.origin .winner))
  else coldWait r env p

/-- The former contexts when the first of them that holds the stub of this key hands it on. -/
def takeOver (z : Zone) (keyHash : KeyHash) : List Former → Option (ℕ × List Former)
  | [] => none
  | f :: rest =>
      if f.coldWinner && !f.coldStored && decide (f.keyHash = keyHash) &&
          Shm.owns z keyHash f.coldOwner then some (f.coldOwner, rest)
      else (takeOver z keyHash rest).map fun t => (t.1, f :: t.2)

/-- `ngx_http_cache_turbo_cold_adopt_own_stub`. -/
def coldAdoptOwnStub (p : Pass) : Option Pass :=
  (takeOver p.zone p.ctx.keyHash p.former).map fun t =>
    { p.setCtx ({ · with coldWinner := true, coldOwner := t.1, coldCleanup := true }) with
      former := t.2 }

/-- A claim that is won, or lost. -/
def coldClaimed (answer : Shm.ClaimAnswer) (p : Pass) : Step :=
  if answer.verdict = .loser then
    match coldAdoptOwnStub p with
    | some p => (p, some (.origin .adopted))
    | none => coldWait r env p
  else
    match lock conf env p with
    | (p, true) => (p, some (.parked .lock))
    | (p, false) => (coldMarkWinner env answer.owner p, some (.origin .winner))

/-- The body of an entry that is fresh when the zone is looked up again after a claim. -/
def freshBody (z : Zone) (keyHash : KeyHash) : Option BlobId :=
  match Shm.lookup z keyHash with
  | none => none
  | some ctn =>
      if (z.mem ctn).len > 0 ∧ env.now < (z.mem ctn).freshUntil then (z.mem ctn).data else none

/-- A claim that finds the entry fresh, and looks it up again. -/
def coldRaced (p : Pass) : Step :=
  if p.ctx.reqReval then (p, some (.origin .raced))
  else
    match freshBody env p.zone p.ctx.keyHash with
    | none => (p, some (.origin .raced))
    | some body =>
        serve r env (some body) (some (.zone p.ctx.keyHash body)) false .none
          ((p.setZone (Shm.blobAcquire p.zone body)).pin [body])

/-- A claim that finds the entry fresh, and has taken the reference on its body. -/
def coldFresh (fresh : Option BlobId) (p : Pass) : Step :=
  match fresh with
  | none => (p, some (.origin .raced))
  | some body =>
      if p.ctx.reqReval then (p.release body, some (.origin .raced))
      else serve r env (some body) (some (.zone p.ctx.keyHash body)) false .none p

/-- `ngx_http_cache_turbo_access_cold`. -/
def cold (p : Pass) : Step :=
  if conf.lock = false then (p, none)
  else if p.ctx.lockReply ≠ none then coldResumeLocked r env p
  else if conf.minUses > 1 ∧ p.ctx.minUsesPassed = false then
    let c := Shm.resolveMiss rb p.zone p.ctx.keyHash p.hash env.now conf.minUses
      conf.minUsesWindow env.l1.lockTtl
    let p := ((p.setZone c.1).pin c.2.2.freshData.toList).grant c.2.2
    if c.2.1 = .declined then
      (p.setCtx ({ · with minUsesSkip := true }), some (.origin .minUses))
    else
      let p := p.setCtx ({ · with minUsesPassed := true })
      if c.2.2.verdict = .fresh then coldFresh r env c.2.2.freshData (p.meanwhile rb env .claimed)
      else coldClaimed conf r env c.2.2 ((p.setCtx ({ · with
        pendingL1Owner := c.2.2.owner })).meanwhile rb env .claimed)
  else
    let c := Shm.claim rb p.zone p.ctx.keyHash p.hash env.now env.l1.lockTtl
    let p := ((p.setZone c.1).grant c.2).setCtx ({ · with pendingL1Owner := c.2.owner })
    if c.2.verdict = .fresh then coldRaced r env (p.meanwhile rb env .claimed)
    else coldClaimed conf r env c.2 (p.meanwhile rb env .claimed)

/-! ## The handler -/

/-- `ngx_http_cache_turbo_access_handler`, for a request that the prologue lets through; `base`
is `ctx->cache_key`, which `build_key` makes of the request in every pass. -/
def handler (p : Pass) : Pass × End :=
  let s := (l1 rb digest crc conf r base env p).andThen fun p =>
    (l2 rb digest crc conf r base env p).andThen fun p =>
      let p := l2MissAccount rb conf env (p.meanwhile rb env .account)
      (onlyIfCached conf r env (p.meanwhile rb env .onlyIfCached)).andThen fun p =>
        (breakerGate conf r env (p.meanwhile rb env .breaker)).andThen fun p =>
          (minUses rb conf env (p.meanwhile rb env .minUses)).andThen fun p =>
            cold rb conf r env (p.meanwhile rb env .cold)
  (s.1, s.2.getD (.origin .plain))

end Phases

end Access
end Http
end CacheTurbo
