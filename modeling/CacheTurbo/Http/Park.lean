/-
# Parking a request and resuming it

A request waits in four places: for the answer to a Redis `GET`, to a Redis lock, to a
memcached `get`, and for the poll timer of a cold wait (`ngx_http_cache_turbo_redis_get`,
`_redis_lock`, `_memcached_get`, `_cold_wait`).  Each of them takes a reference on the main
request, installs `_parked_handler`, and has a completion that runs the phases
again, finalizes the request with `NGX_DONE` and runs the posted requests.  The three
operations have a pool and a connection of their own and an entry in the
cleanup list of the request's pool.

The C code that would read freed memory, follow a null pointer or release a thing twice is
a fault here (`Fault`), so that a run which ends without one has done nothing of the kind.
The references of the parks, the pools of the operations and the connections they
took are kept in ledgers, which also say how each of them went.

What nginx does with a request is the rest of the model: what its phases do between two parks
is a list of deeds, and a forced termination may come at any time.
-/

import CacheTurbo.Lib.Ledger
import CacheTurbo.Blob.Headers

namespace CacheTurbo
namespace Http
namespace Park

open Bytes

/-! ## The state -/

/-- What C leaves undefined, or nginx reports as an alert. -/
inductive Fault
  | useAfterFree
  | nullPointer
  | doubleRelease
  | countZero
  deriving DecidableEq, Repr

/-- The return codes that matter here. -/
inductive Rc
  | ok
  | declined
  | error
  | again
  deriving DecidableEq, Repr

/-- The operations that park a request on a connection. -/
inductive Driver
  | redisGet
  | redisLock
  | memcachedGet
  deriving DecidableEq, Repr

/-- `r->write_event_handler`: `ngx_http_core_run_phases`, `_parked_handler`,
`ngx_http_terminate_handler`, or the handler of some other module. -/
inductive Handler
  | runPhases
  | parked
  | terminate
  | elsewhere
  deriving DecidableEq, Repr

/-- The entries that the module adds to the cleanup list of the request's pool. -/
inductive Cleanup
  | walkDetach (op : ℕ)
  | mcGetDetach (op : ℕ)
  | coldWait (ctx : ℕ)
  deriving DecidableEq, Repr

/-- The operation that a cleanup entry is about. -/
def Cleanup.op? : Cleanup → Option ℕ
  | .walkDetach i => some i
  | .mcGetDetach i => some i
  | .coldWait _ => none

/-- An operation.  It is allocated in its own pool, whose number is the operation's. -/
structure Op where
  driver : Driver := .redisGet
  /-- `op->request` is set. -/
  request : Bool := false
  ctx : Option ℕ := none
  /-- `op->req_cln`, as a position in the cleanup list. -/
  reqCln : Option ℕ := none
  /-- `op->peer.connection`. -/
  connection : Option ℕ := none
  clean : Bool := false
  detached : Bool := false
  /-- The reference that the park took; the code does not store it. -/
  park : ℕ := 0
  deriving DecidableEq, Repr

/-- `ngx_http_cache_turbo_ctx_t`, what the parks read and write of it. -/
structure Ctx where
  l2Done : Bool := false
  l2Result : Rc := .ok
  l2Blob : Option Bytes := none
  lockDone : Bool := false
  lockResult : Rc := .ok
  l2NegSkipped : Bool := false
  l2NegForce : Bool := false
  l2PresentUnserveable : Bool := false
  /-- `sie_armed`, and there is a snapshot. -/
  sieArmed : Bool := false
  waiting : Bool := false
  waitPolled : Bool := false
  waitDeadline : ℤ := 0
  /-- `cold_wait_ev.handler` is set. -/
  coldWaitHandler : Bool := false
  /-- `cold_wait_ev.timer_set`. -/
  timerSet : Bool := false
  /-- The reference that the wait took; the code does not store it. -/
  park : ℕ := 0
  deriving DecidableEq, Repr

/-- How the reference of a park went. -/
inductive ParkEnd
  | finalized
  | torn
  deriving DecidableEq, Repr

/-- How an operation let its connection go. -/
inductive ConnEnd
  | closed
  | pooled
  deriving DecidableEq, Repr

/-- A request with everything that hangs on it, and the operations it started. -/
structure State where
  /-- The request's pool has not been destroyed. -/
  alive : Bool
  /-- `r->main->count`. -/
  count : ℕ
  /-- How many of these references are nginx's own; the code does not store it. -/
  others : ℕ
  writeEventHandler : Handler
  /-- The module's context of the request, a position in `ctxs`. -/
  ctx : Option ℕ
  ctxs : ℕ → Ctx
  /-- How many contexts were allocated. -/
  nctx : ℕ
  /-- The cleanup list of the request's pool, the oldest entry first; `none` is an entry
  whose handler is null. -/
  cleanups : List (Option Cleanup)
  /-- The pools of the operations. -/
  pools : Ledger Unit
  ops : ℕ → Op
  /-- The connections, each from when an operation took it. -/
  conns : Ledger ConnEnd
  /-- `c->data`. -/
  data : ℕ → ℕ
  /-- The references that the parks took. -/
  parks : Ledger ParkEnd

/-- A request that has just been read. -/
def State.start : State where
  alive := true
  count := 1
  others := 1
  writeEventHandler := .runPhases
  ctx := none
  ctxs := fun _ => {}
  nctx := 0
  cleanups := []
  pools := .empty
  ops := fun _ => {}
  conns := .empty
  data := fun _ => 0
  parks := .empty

/-! ## Memory -/

/-- The request and everything in its pool may be read. -/
def State.request (s : State) : Except Fault Unit :=
  if s.alive then .ok () else .error .useAfterFree

/-- Reads an operation. -/
def State.op (s : State) (i : ℕ) : Except Fault Op :=
  if i ∈ s.pools.held then .ok (s.ops i) else .error .useAfterFree

/-- Changes an operation that may be read. -/
def State.setOp (s : State) (i : ℕ) (f : Op → Op) : State :=
  { s with ops := Function.update s.ops i (f (s.ops i)) }

/-- Changes a context that may be read. -/
def State.setCtx (s : State) (x : ℕ) (f : Ctx → Ctx) : State :=
  { s with ctxs := Function.update s.ctxs x (f (s.ctxs x)) }

/-- `ngx_pool_cleanup_add` on the request's pool. -/
def State.addCleanup (s : State) (e : Cleanup) : State :=
  { s with cleanups := s.cleanups ++ [some e] }

/-- `ngx_destroy_pool` of an operation's pool. -/
def destroyOpPool (s : State) (i : ℕ) : Except Fault State :=
  if h : i ∈ s.pools.held then .ok { s with pools := s.pools.giveBack i h () }
  else .error .doubleRelease

/-- The connection is closed, or goes to the keepalive pool. -/
def releaseConn (s : State) (c : ℕ) (how : ConnEnd) : Except Fault State :=
  if h : c ∈ s.conns.held then .ok { s with conns := s.conns.giveBack c h how }
  else .error .doubleRelease

/-- `op->req_cln->handler = NULL; op->req_cln = NULL`. -/
def disarm (s : State) (i : ℕ) : Except Fault State := do
  let op ← s.op i
  match op.reqCln with
  | none => .error .nullPointer
  | some k => do
      s.request
      .ok ({ s with cleanups := s.cleanups.set k none }.setOp i fun op =>
        { op with reqCln := none })

/-! ## Parking on an operation -/

/-- How far a driver gets with its operation. -/
inductive Launch
  /-- No pool. -/
  | noPool
  /-- No room for the operation, a buffer, the command, or the cleanup entry. -/
  | noRoom
  /-- `_launch` or `_connect` fails without a connection: the back-off window is open,
  there is no room for the preamble, or no socket. -/
  | early
  /-- The connection is closed again at once. -/
  | refused
  | launched
  deriving DecidableEq, Repr

/-- The cleanup handler that a driver registers. -/
def Driver.cleanup : Driver → ℕ → Cleanup
  | .redisGet => .walkDetach
  | .redisLock => .walkDetach
  | .memcachedGet => .mcGetDetach

/-- `_redis_op_create` and `_mc_op_create`, with `op->request` and `op->ctx` set. -/
def opCreate (s : State) (d : Driver) (x : ℕ) : State :=
  { s with
    pools := s.pools.take
    ops := Function.update s.ops s.pools.next { driver := d, request := true, ctx := some x } }

/-- `_redis_req_attach`, and the same lines of `_memcached_get`. -/
def reqAttach (s : State) (d : Driver) (i : ℕ) : State :=
  (s.addCleanup (d.cleanup i)).setOp i fun op => { op with reqCln := some s.cleanups.length }

/-- A connection is opened, or taken out of the keepalive pool; `c->data = op`. -/
def takeConn (s : State) (i : ℕ) : State :=
  { s with conns := s.conns.take, data := Function.update s.data s.conns.next i }.setOp i fun op =>
    { op with connection := some s.conns.next }

/-- `r->main->count++; r->write_event_handler = _parked_handler`. -/
def park (s : State) : State :=
  { s with count := s.count + 1, writeEventHandler := .parked, parks := s.parks.take }

/-- What `_redis_get`, `_redis_lock` and `_memcached_get` have in common. -/
def launch (s : State) (d : Driver) (x : ℕ) : Launch → Except Fault (State × Rc)
  | .noPool => .ok (s, .declined)
  | .noRoom => do
      let s' ← destroyOpPool (opCreate s d x) s.pools.next
      .ok (s', .declined)
  | .early => do
      let i := s.pools.next
      let s' ← disarm (reqAttach (opCreate s d x) d i) i
      let s' ← destroyOpPool s' i
      .ok (s', .declined)
  | .refused => do
      let i := s.pools.next
      let s' ← releaseConn (takeConn (reqAttach (opCreate s d x) d i) i) s.conns.next .closed
      let s' ← disarm s' i
      let s' ← destroyOpPool s' i
      .ok (s', .declined)
  | .launched =>
      let i := s.pools.next
      let s' := takeConn (reqAttach (opCreate s d x) d i) i
      .ok ((park s').setOp i fun op => { op with park := s.parks.next }, .again)

/-- `ngx_http_cache_turbo_redis_get`. -/
def redisGet (s : State) (x : ℕ) (l : Launch) : Except Fault (State × Rc) :=
  launch s .redisGet x l

/-- `ngx_http_cache_turbo_redis_lock`. -/
def redisLock (s : State) (x : ℕ) (l : Launch) : Except Fault (State × Rc) :=
  launch s .redisLock x l

/-- `ngx_http_cache_turbo_memcached_get`. -/
def memcachedGet (s : State) (x : ℕ) (l : Launch) : Except Fault (State × Rc) :=
  launch s .memcachedGet x l

/-! ## Parking on the timer -/

/-- What a cold wait reads besides the context: the clock, `clcf->lock_timeout`, and whether
there is room for the cleanup entry. -/
structure Wait where
  now : ℤ
  lockTimeout : ℤ
  room : Bool
  deriving DecidableEq, Repr

/-- The lines of `_cold_wait` that enter the wait. -/
def waitEnter (ctx : Ctx) (w : Wait) : Ctx :=
  if ctx.waiting then ctx
  else { ctx with waiting := true, waitDeadline := w.now + w.lockTimeout }

/-- The lines of `_cold_wait` that forget the previous answer, so that the resume asks again. -/
def waitForget (ctx : Ctx) : Ctx :=
  { ctx with l2Done := false, l2NegSkipped := false, l2NegForce := true, l2Result := .error,
             l2Blob := none }

/-- `cold_wait_ev.handler = _cold_wait_timeout`. -/
def waitHandler (ctx : Ctx) : Ctx := { ctx with coldWaitHandler := true }

/-- `ngx_add_timer` and what follows it. -/
def waitArm (s : State) (x : ℕ) : State :=
  (park s).setCtx x fun ctx =>
    { ctx with timerSet := true, waitPolled := true, park := s.parks.next }

/-- The timer of a context is deleted, or expires. -/
def timerOff (ctx : Ctx) : Ctx := { ctx with timerSet := false }

/-- `ngx_http_cache_turbo_cold_wait`. -/
def coldWait (s : State) (x : ℕ) (w : Wait) : Except Fault (State × Rc) := do
  s.request
  let s := s.setCtx x (waitEnter · w)
  let ctx := s.ctxs x
  if ctx.waitPolled ∧ ctx.l2PresentUnserveable then
    .ok (s.setCtx x ({ · with waiting := false }), .declined)
  else if ctx.waitDeadline - w.now ≤ 0 then
    .ok (s.setCtx x ({ · with waiting := false }), if ctx.sieArmed then .ok else .declined)
  else
    let s := s.setCtx x waitForget
    if ctx.coldWaitHandler then .ok (waitArm s x, .again)
    else
      let s := s.setCtx x waitHandler
      if w.room then .ok (waitArm (s.addCleanup (.coldWait x)) x, .again) else .ok (s, .error)

/-! ## Releasing -/

/-- What becomes of the connection when the operation is done: the keepalive pool takes it,
takes it and drops it again, or refuses it. -/
inductive Save
  | saved
  | dropped
  | refused
  deriving DecidableEq, Repr

/-- `_redis_ka_save` and `_mc_ka_save`, which want a clean operation, and the close after a
refusal. -/
def connEnd (op : Op) (save : Save) : ConnEnd :=
  if op.clean ∧ save = .saved then .pooled else .closed

/-- What `_redis_op_done` and `_mc_op_done` have in common. -/
def opDone (s : State) (i : ℕ) (save : Save) : Except Fault State := do
  let op ← s.op i
  let s ← if op.reqCln.isSome then disarm s i else .ok s
  let s ← match op.connection with
    | none => .ok s
    | some c => releaseConn s c (connEnd op save)
  destroyOpPool s i

/-- `ngx_http_cache_turbo_redis_op_done`, for an operation without a drain callback and without
a second pool. -/
def redisOpDone (s : State) (i : ℕ) (save : Save) : Except Fault State := opDone s i save

/-- `ngx_http_cache_turbo_mc_op_done`. -/
def mcOpDone (s : State) (i : ℕ) (save : Save) : Except Fault State := opDone s i save

/-- `ngx_http_cache_turbo_redis_walk_detach`, for an operation that is not suspended. -/
def walkDetach (s : State) (i : ℕ) : Except Fault State := do
  let op ← s.op i
  if op.detached then .ok s
  else
    redisOpDone (s.setOp i fun op =>
      { op with detached := true, request := false, ctx := none, reqCln := none }) i .saved

/-- `ngx_http_cache_turbo_mc_get_detach`. -/
def mcGetDetach (s : State) (i : ℕ) : Except Fault State := do
  let _ ← s.op i
  mcOpDone (s.setOp i fun op => { op with reqCln := none, request := false, ctx := none }) i .saved

/-- `ngx_http_cache_turbo_cold_wait_cleanup`. -/
def coldWaitCleanup (s : State) (x : ℕ) : State :=
  if (s.ctxs x).timerSet then s.setCtx x timerOff else s

/-- One entry of the cleanup list. -/
def runCleanup (s : State) : Cleanup → Except Fault State
  | .walkDetach i => walkDetach s i
  | .mcGetDetach i => mcGetDetach s i
  | .coldWait x => .ok (coldWaitCleanup s x)

/-- The first `k` entries of the cleanup list, the newest first. -/
def runCleanups : ℕ → State → Except Fault State
  | 0, s => .ok s
  | k + 1, s =>
      match s.cleanups.getD k none with
      | none => runCleanups k s
      | some h => do
          let s ← runCleanup s h
          runCleanups k s

/-- `ngx_destroy_pool` of the request's pool; no reference is left of any park. -/
def destroyPool (s : State) : Except Fault State :=
  if s.alive then do
    let s ← runCleanups s.cleanups.length s
    .ok { s with alive := false, others := 0, parks := s.parks.giveBackAll .torn }
  else .error .doubleRelease

/-- `ngx_http_close_request`. -/
def closeRequest (s : State) : Except Fault State := do
  s.request
  if s.count = 0 then .error .countZero
  else
    let s := { s with count := s.count - 1 }
    if s.count = 0 then destroyPool s else .ok s

/-! ## Running the phases -/

/-- What the access handler tries in one run; a park ends it. -/
inductive Try
  | launch (d : Driver) (l : Launch)
  | wait (w : Wait)
  deriving DecidableEq, Repr

/-- What nginx does with a request. -/
inductive Deed
  /-- The access handler; `room` is that its context could be allocated. -/
  | access (room : Bool) (tries : List Try)
  /-- `ngx_http_internal_redirect`, which clears the contexts of all modules. -/
  | redirect
  /-- Another reference is taken (a subrequest, an upstream, a body). -/
  | hold
  /-- One of these references goes. -/
  | release
  /-- Another module installs its write handler. -/
  | install
  /-- `ngx_http_terminate_request`. -/
  | terminate
  deriving DecidableEq, Repr

/-- The driver of a try. -/
def tryDriver (s : State) (x : ℕ) (d : Driver) (l : Launch) : Except Fault (State × Rc) :=
  match d with
  | .redisGet => redisGet s x l
  | .redisLock => redisLock s x l
  | .memcachedGet => memcachedGet s x l

/-- The access handler with its context: it returns as soon as the request is parked, and with
what a cold wait answers. -/
def access (s : State) (x : ℕ) : List Try → Except Fault (State × Rc)
  | [] => .ok (s, .declined)
  | .wait w :: _ => coldWait s x w
  | .launch d l :: tries => do
      let (s, rc) ← tryDriver s x d l
      if rc = .again then .ok (s, .again) else access s x tries

/-- The context of the request, allocated if there is none. -/
def ensureCtx (s : State) : State × ℕ :=
  match s.ctx with
  | some x => (s, x)
  | none => ({ s with ctx := some s.nctx, nctx := s.nctx + 1 }, s.nctx)

/-- `ngx_http_core_run_phases`.  A request that nginx has freed is left alone; an error of the
access handler terminates the request, unless `post_action` redirects it. -/
def runPhases : List Deed → State → Except Fault State
  | [], s => .ok s
  | deed :: deeds, s =>
      if s.alive = false then .ok s
      else match deed with
        | .access room tries =>
            if s.ctx = none ∧ room = false then .ok { s with writeEventHandler := .terminate }
            else do
              let (s, rc) ← access (ensureCtx s).1 (ensureCtx s).2 tries
              match rc with
              | .again => .ok s
              | .error =>
                  if deeds.head? = some .redirect then runPhases deeds s
                  else .ok { s with writeEventHandler := .terminate }
              | _ => runPhases deeds s
        | .redirect => runPhases deeds { s with ctx := none, writeEventHandler := .runPhases }
        | .hold => runPhases deeds { s with count := s.count + 1, others := s.others + 1 }
        | .release =>
            if s.others = 0 then runPhases deeds s
            else do
              let s ← closeRequest { s with others := s.others - 1 }
              runPhases deeds s
        | .install => runPhases deeds { s with writeEventHandler := .elsewhere }
        | .terminate => .ok { s with writeEventHandler := .terminate }

/-- `ngx_http_run_posted_requests`: the posted `ngx_http_terminate_handler`, unless the request
has been freed (`c->destroyed`). -/
def runPosted (s : State) : Except Fault State :=
  if s.alive ∧ s.writeEventHandler = .terminate then closeRequest { s with count := 1 } else .ok s

/-- `ngx_http_finalize_request(r, NGX_DONE)`.  The last reference closes the request, or stays
with nginx to drain the client (`linger`). -/
def finalizeDone (s : State) (p : ℕ) (linger : Bool) : Except Fault State := do
  s.request
  if h : p ∈ s.parks.held then
    let s := { s with parks := s.parks.giveBack p h .finalized }
    if s.count = 1 ∧ linger then .ok { s with others := s.others + 1 } else closeRequest s
  else .error .doubleRelease

/-! ## The completions -/

/-- What nginx and the pools do during a completion. -/
structure Finish where
  /-- There is room for the copy of the blob. -/
  copyRoom : Bool := true
  save : Save := .refused
  deeds : List Deed := []
  linger : Bool := false
  deriving DecidableEq, Repr

/-- `ngx_http_cache_turbo_unpark`. -/
def unpark (s : State) : State :=
  if s.writeEventHandler = .parked then { s with writeEventHandler := .runPhases } else s

/-- The last four lines of every completion; `p` is the reference that its park took. -/
def resume (s : State) (p : ℕ) (f : Finish) : Except Fault State := do
  s.request
  let s ← runPhases f.deeds (unpark s)
  let s ← finalizeDone s p f.linger
  runPosted s

/-- `ctx = op->ctx; r = op->request; c = r->connection`. -/
def opCtx (s : State) (op : Op) : Except Fault ℕ :=
  match op.request, op.ctx with
  | true, some x => do s.request; .ok x
  | _, _ => .error .nullPointer

/-- What `_redis_get_finish` and `_mc_get_finish` have in common. -/
def getFinish (s : State) (i : ℕ) (result : Rc) (blob : Bytes) (f : Finish) :
    Except Fault State := do
  let op ← s.op i
  let x ← opCtx s op
  let copied := result = .ok ∧ 0 < blob.length ∧ f.copyRoom = true
  let result := if result = .ok ∧ 0 < blob.length ∧ f.copyRoom = false then .error else result
  let s := s.setCtx x fun ctx =>
    { ctx with
      l2Blob := if copied then some (Blob.blobClearVetted blob) else ctx.l2Blob
      l2Result := result
      l2Done := true }
  let s ← opDone s i f.save
  resume s op.park f

/-- `ngx_http_cache_turbo_redis_get_finish`. -/
def redisGetFinish (s : State) (i : ℕ) (result : Rc) (blob : Bytes) (f : Finish) :
    Except Fault State := getFinish s i result blob f

/-- `ngx_http_cache_turbo_mc_get_finish`. -/
def mcGetFinish (s : State) (i : ℕ) (result : Rc) (blob : Bytes) (f : Finish) :
    Except Fault State := getFinish s i result blob f

/-- `ngx_http_cache_turbo_redis_lock_finish`. -/
def redisLockFinish (s : State) (i : ℕ) (result : Rc) (f : Finish) : Except Fault State := do
  let op ← s.op i
  let x ← opCtx s op
  let s := s.setCtx x ({ · with lockResult := result, lockDone := true })
  let s ← redisOpDone s i f.save
  resume s op.park f

/-- `ngx_http_cache_turbo_redis_op_fail`, for an operation without a member callback. -/
def redisOpFail (s : State) (i : ℕ) (f : Finish) : Except Fault State := do
  let op ← s.op i
  if op.driver = .redisLock then redisLockFinish s i .error f
  else if op.request then redisGetFinish s i .error [] f
  else redisOpDone s i f.save

/-- `ngx_http_cache_turbo_mc_op_fail`. -/
def mcOpFail (s : State) (i : ℕ) (f : Finish) : Except Fault State := do
  let op ← s.op i
  if op.request then mcGetFinish s i .error [] f else mcOpDone s i f.save

/-- What happens on the connection of an operation. -/
inductive ConnEvent
  /-- A part of the command goes out, or a part of the answer comes in. -/
  | more
  /-- The write side, the preamble or the handshake fails or times out. -/
  | failed
  /-- The read handler gives up: a timeout, a read error, an answer it cannot read. -/
  | broken
  /-- The answer is complete; `clean` is that nothing follows it. -/
  | answer (result : Rc) (blob : Bytes) (clean : Bool)
  deriving DecidableEq, Repr

/-- The completion that the read handler of a driver runs: `_redis_read_get`,
`_redis_read_lock`, `_mc_read_get`. -/
def readFinish (s : State) (i : ℕ) (result : Rc) (blob : Bytes) (f : Finish) :
    Except Fault State := do
  let op ← s.op i
  match op.driver with
  | .redisGet => redisGetFinish s i result blob f
  | .redisLock => redisLockFinish s i result f
  | .memcachedGet => mcGetFinish s i result blob f

/-- The event handler of a connection; `op = c->data`. -/
def connEvent (s : State) (c : ℕ) (e : ConnEvent) (f : Finish) : Except Fault State := do
  let i := s.data c
  let op ← s.op i
  match e with
  | .more => .ok s
  | .failed => if op.driver = .memcachedGet then mcOpFail s i f else redisOpFail s i f
  | .broken => readFinish s i .error [] f
  | .answer result blob clean => readFinish (s.setOp i ({ · with clean := clean })) i result blob f

/-- `ngx_http_cache_turbo_cold_wait_timeout`; the event and its request live in the pool of the
request. -/
def coldWaitTimeout (s : State) (x : ℕ) (f : Finish) : Except Fault State := do
  s.request
  resume s (s.ctxs x).park f

/-! ## Runs -/

/-- What may happen to a request. -/
inductive Event
  /-- `ngx_http_request_handler`, on the client's side. -/
  | client (write : Bool) (deeds : List Deed)
  /-- Something happens on a connection. -/
  | conn (c : ℕ) (e : ConnEvent) (f : Finish)
  /-- The poll timer of a context expires. -/
  | timer (x : ℕ) (f : Finish)
  /-- A forced termination, from a subrequest, a shutdown or a timeout of nginx's own. -/
  | terminate
  /-- Another reference is taken. -/
  | hold
  /-- One of these references goes. -/
  | release
  deriving DecidableEq, Repr

/-- One event.  A connection that was closed or went to the keepalive pool has no event for
its old operation, and a timer that is not set does not expire.  A read event of the client
finds `ngx_http_block_reading`. -/
def step (s : State) : Event → Except Fault State
  | .client write deeds =>
      if s.alive = false ∨ write = false ∨ s.writeEventHandler = .parked then .ok s
      else do
        let s ← runPhases deeds s
        runPosted s
  | .conn c e f => if c ∈ s.conns.held then connEvent s c e f else .ok s
  | .timer x f =>
      if (s.ctxs x).timerSet then coldWaitTimeout (s.setCtx x timerOff) x f
      else .ok s
  | .terminate =>
      if s.alive then runPosted { s with writeEventHandler := .terminate } else .ok s
  | .hold =>
      if s.alive then .ok { s with count := s.count + 1, others := s.others + 1 } else .ok s
  | .release =>
      if s.alive ∧ s.others ≠ 0 then closeRequest { s with others := s.others - 1 } else .ok s

/-- The state after a run. -/
def run (s : State) : List Event → Except Fault State
  | [] => .ok s
  | e :: events => do
      let s ← step s e
      run s events

end Park
end Http
end CacheTurbo
