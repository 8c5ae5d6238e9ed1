/-
# Visits to the access phase

A request enters the access handler, is parked, and is resumed with what it waited for; an
internal redirect gives it a new context, and at any time its pool may be destroyed, whose
cleanups give back what the request has in hand.  Others work on the zone in between, and in the
middle of a pass.

Both `GET`s put their reply in one place of the context.  The ghosts `result` and `blob` tell
which `GET` set `ctx->l2_result` and `ctx->l2_blob`; the code has none of them.
-/

import CacheTurbo.Http.Access

namespace CacheTurbo
namespace Http
namespace Access

open Bytes Blob
open Shm (Zone Rbtree BlobId Loans)

/-- A `GET` that was answered: whether it was the marker's, and its key. -/
structure Get where
  marker : Bool
  keyHash : KeyHash
  deriving DecidableEq, Repr

/-- Where a request is. -/
inductive Place
  /-- It has yet to enter the handler with this context. -/
  | outside
  | parked (waits : Waits)
  /-- The last pass was over: it has been answered, or is at the origin. -/
  | left
  /-- Its pool is destroyed. -/
  | closed
  deriving DecidableEq, Repr

/-- A request in the access phase, the zone, and what other requests have in hand. -/
structure Visit where
  others : Loans
  pins : List BlobId
  ctx : Ctx
  former : List Former
  granted : List (KeyHash × ℕ)
  place : Place
  /-- The key of the `GET` on its way. -/
  asked : KeyHash
  result : Option Get
  blob : Option Get

/-- The zone. -/
def Visit.zone (s : Visit) : Zone := s.others.zone

/-- A request that begins. -/
def Visit.begin (others : Loans) (onlyIfCached : Bool) : Visit where
  others := others
  pins := []
  ctx := Ctx.fresh onlyIfCached
  former := []
  granted := []
  place := .outside
  asked := Vector.replicate 32 0
  result := none
  blob := none

/-- A call of `ngx_http_cache_turbo_body_filter_store`: the key is that of the request, or of the
variant that the response turns out to be. -/
structure StoreCall where
  keyHash : KeyHash
  hash : UInt32
  data : Bytes
  freshTtl : Time
  staleTtl : Time
  /-- The status is 500 or more. -/
  is5xx : Bool

/-- What can happen to it. -/
inductive VisitEvent
  | enter (env : Env)
  /-- The reply of a `GET` (`ngx_http_cache_turbo_redis_get_finish`, `_mc_get_finish`); `room` is
  that of the pool for the blob. -/
  | reply (result : Rc) (blob : Bytes) (room : Bool) (env : Env)
  /-- The reply of the lock (`ngx_http_cache_turbo_redis_lock_finish`). -/
  | lockReply (result : Rc) (env : Env)
  /-- The timer of a cold wait. -/
  | woken (env : Env)
  /-- Another request does something. -/
  | other (e : Shm.Event)
  /-- The response is replaced by a snapshot, or cannot be cached: no store will follow. -/
  | unstored (now : Time)
  /-- The tail of the store; others run in the middle of it.  What follows it, the marker and the
  rollback, is in `TailRun`. -/
  | stored (now : Time) (others : List Shm.Event) (call : StoreCall)
  /-- An internal redirect: the request has a new context. -/
  | redirect (onlyIfCached : Bool)
  /-- The pool is destroyed; others run before each of its cleanups. -/
  | closed (now : Time) (gaps : List (List Shm.Event))

/-- The reply of a `GET` has a value, and the pool takes it. -/
def taken (result : Rc) (blob : Bytes) (room : Bool) : Bool :=
  decide (result = .ok) && decide (0 < blob.length) && room

/-- The completion of a `GET`; an empty value leaves the blob as it is. -/
def Ctx.getFinish (ctx : Ctx) (result : Rc) (blob : Bytes) (room : Bool) : Ctx :=
  { ctx with
    l2Blob := if taken result blob room then some (blobClearVetted blob) else ctx.l2Blob
    l2Result := if result = .ok ∧ 0 < blob.length ∧ room = false then .error else result
    l2Done := true }

/-- The request with the reply of the `GET` it waited for. -/
def Visit.getFinish (s : Visit) (marker : Bool) (result : Rc) (blob : Bytes) (room : Bool) :
    Visit :=
  { s with
    ctx := s.ctx.getFinish result blob room
    result := some ⟨marker, s.asked⟩
    blob := if taken result blob room then some ⟨marker, s.asked⟩ else s.blob }

/-- The request as it is when the handler runs, and what the outside decides there; nothing where
the event does not run the handler. -/
def Visit.arrive (s : Visit) : VisitEvent → Option (Visit × Env)
  | .enter env => if s.place = .outside then some (s, env) else none
  | .reply result blob room env =>
      match s.place with
      | .parked .markerGet => some (s.getFinish true result blob room, env)
      | .parked .objectGet => some (s.getFinish false result blob room, env)
      | .parked .lock | .parked .timer | .outside | .left | .closed => none
  | .lockReply result env =>
      if s.place = .parked .lock then
        some ({ s with ctx := { s.ctx with lockReply := some result } }, env)
      else none
  | .woken env => if s.place = .parked .timer then some (s, env) else none
  | .other _ | .unstored _ | .stored _ _ _ | .redirect _ | .closed _ _ => none

/-- The key of a `GET` that is sent. -/
def Deed.sent : Deed → Option KeyHash
  | .asked k => some k
  | .skipped _ | .resolved _ _ _ | .dropped _ | .memo _ | .promoted _ _ | .armed _ _ => none

/-- Where a request is after a pass. -/
def End.place : End → Place
  | .parked waits => .parked waits
  | .served _ _ | .origin _ | .gatewayTimeout | .unavailable | .error => .left

/-- The request after a pass. -/
def Visit.leave (s : Visit) (res : Pass × End) : Visit :=
  { s with
    others := res.1.others
    pins := res.1.pins
    ctx := res.1.ctx
    former := res.1.former
    granted := res.1.granted
    place := res.2.place
    asked := (res.1.deeds.findSome? Deed.sent).getD s.asked }

/-- The pass that the handler begins with. -/
def Visit.pass (s : Visit) : Pass := ⟨s.others, s.pins, s.ctx, 0, s.former, s.granted, []⟩

/-! ## The end of the pool -/

/-- A context as the pool's cleanups know it. -/
def Ctx.toFormer (ctx : Ctx) : Former :=
  ⟨ctx.keyHash, ctx.coldWinner, ctx.coldOwner, ctx.coldStored⟩

/-- A cleanup of the pool: `ngx_http_cache_turbo_blob_cleanup`, `ngx_http_cache_turbo_cold_cleanup`. -/
inductive Cleanup
  | body (b : BlobId)
  | cold (f : Former)
  deriving DecidableEq, Repr

/-- The contexts whose cleanup is in the pool. -/
def Visit.formers (s : Visit) : List Former :=
  if s.ctx.coldCleanup then s.ctx.toFormer :: s.former else s.former

/-- The cleanups in the pool; no one depends on their order. -/
def Visit.cleanups (s : Visit) : List Cleanup := s.formers.map .cold ++ s.pins.map .body

/-- A cleanup. -/
def Cleanup.run (rb : Rbtree) (now : Time) (s : Loans) : Cleanup → Loans
  | .body b => blobRelease s b
  | .cold f =>
      if f.coldWinner && !f.coldStored then
        { s with zone := Shm.unstub rb s.zone f.keyHash f.coldOwner now }
      else s

/-- The cleanups one by one, and what others do before each. -/
def runCleanups (rb : Rbtree) (now : Time) : List Cleanup → List (List Shm.Event) → Loans → Loans
  | [], _, s => s
  | c :: cs, gaps, s =>
      runCleanups rb now cs gaps.tail
        (c.run rb now (Run.after (Loans.step rb) s (gaps.head?.getD [])))

/-- The request when its pool is destroyed: nothing of its contexts is left. -/
def Visit.close (rb : Rbtree) (now : Time) (gaps : List (List Shm.Event)) (s : Visit) : Visit :=
  { Visit.begin (runCleanups rb now s.cleanups gaps s.others) false with
    place := .closed
    granted := s.granted }

/-- The request after an internal redirect: the cleanup of the old context stays in the pool. -/
def Visit.redirect (onlyIfCached : Bool) (s : Visit) : Visit :=
  { s with
    ctx := Ctx.fresh onlyIfCached
    former := s.formers
    place := .outside
    result := none
    blob := none }

/-! ## The response -/

/-- The lease of the miss is given back under the key of the context. -/
def Visit.unstub (rb : Rbtree) (now : Time) (s : Visit) : Visit :=
  { s with others := { s.others with
      zone := Shm.unstub rb s.zone s.ctx.keyHash s.ctx.coldOwner now } }

/-- The response will not be stored. -/
def Visit.unstored (rb : Rbtree) (now : Time) (s : Visit) : Visit :=
  if s.ctx.coldWinner && !s.ctx.coldStored then
    { s.unstub rb now with ctx := { s.ctx with coldStored := true } }
  else s

/-- `ngx_http_cache_turbo_body_filter_store`: an error does not replace a body that is good. -/
def StoreCall.run (rb : Rbtree) (call : StoreCall) (now : Time) (z : Zone) : Zone × Rc :=
  let r := if call.is5xx then
    Shm.storeIf rb z call.keyHash call.hash now call.data call.freshTtl call.staleTtl
      .absentOrDead false
  else Shm.store rb z call.keyHash call.hash now call.data call.freshTtl call.staleTtl false
  (r.1, r.2.1)

/-- The store: a stub that is left behind under another key goes first. -/
def Visit.stored (rb : Rbtree) (now : Time) (others : List Shm.Event) (call : StoreCall)
    (s : Visit) : Visit :=
  let s := if s.ctx.coldWinner && !s.ctx.coldStored && decide (call.keyHash ≠ s.ctx.keyHash) then
    s.unstub rb now else s
  let others := Run.after (Loans.step rb) s.others others
  let r := call.run rb now others.zone
  { s with
    others := { others with zone := r.1 }
    ctx := { s.ctx with coldStored := s.ctx.coldStored || decide (r.2 = .ok) } }

/-! ## Events -/

variable (rb : Rbtree) (digest : Bytes → KeyHash) (crc : KeyHash → UInt32) (conf : Conf)
  (r : Request) (base : Bytes)

/-- An event that does not run the handler. -/
def Visit.elsewhere (s : Visit) : VisitEvent → Visit
  | .other e => { s with others := s.others.step rb e }
  | .unstored now => if s.place = .left then s.unstored rb now else s
  | .stored now others call => if s.place = .left then s.stored rb now others call else s
  | .redirect onlyIfCached => if s.place = .left then s.redirect onlyIfCached else s
  | .closed now gaps => if s.place = .closed then s else s.close rb now gaps
  | .enter _ | .reply _ _ _ _ | .lockReply _ _ | .woken _ => s

/-- One event. -/
def Visit.step (s : Visit) (e : VisitEvent) : Visit :=
  match s.arrive e with
  | some (t, env) => t.leave (handler rb digest crc conf r base env t.pass)
  | none => s.elsewhere rb e

/-- What becomes of the response changes the zone and `cold_stored`. -/
def Visit.settle (s : Visit) (others : Loans) (coldStored : Bool) : Visit :=
  { s with others := others, ctx := { s.ctx with coldStored := coldStored } }

theorem unstored_settle (now : Time) (s : Visit) :
    ∃ others coldStored, s.unstored rb now = s.settle others coldStored := by
  unfold Visit.unstored
  split_ifs
  · exact ⟨_, true, rfl⟩
  · exact ⟨s.others, s.ctx.coldStored, rfl⟩

theorem stored_settle (now : Time) (others : List Shm.Event) (call : StoreCall) (s : Visit) :
    ∃ others' coldStored, s.stored rb now others call = s.settle others' coldStored := by
  unfold Visit.stored
  dsimp only
  split_ifs
  · exact ⟨_, _, rfl⟩
  · exact ⟨_, _, rfl⟩

/-- **What an event does that does not run the handler**: it redirects the request, or destroys
its pool, or changes no more than the zone and `cold_stored`. -/
theorem elsewhere_cases (s : Visit) (e : VisitEvent) :
    (∃ onlyIfCached, e = .redirect onlyIfCached ∧ s.place = .left ∧
        s.elsewhere rb e = s.redirect onlyIfCached) ∨
      (∃ now gaps, s.elsewhere rb e = s.close rb now gaps ∧ s.place ≠ .closed) ∨
      ∃ others coldStored, s.elsewhere rb e = s.settle others coldStored := by
  have hsame : ∃ others coldStored, s = s.settle others coldStored :=
    ⟨s.others, s.ctx.coldStored, rfl⟩
  unfold Visit.elsewhere
  split
  · exact Or.inr (Or.inr ⟨_, s.ctx.coldStored, rfl⟩)
  · split_ifs
    · exact Or.inr (Or.inr (unstored_settle rb _ s))
    · exact Or.inr (Or.inr hsame)
  · split_ifs
    · exact Or.inr (Or.inr (stored_settle rb _ _ _ s))
    · exact Or.inr (Or.inr hsame)
  · split_ifs with hleft
    · exact Or.inl ⟨_, rfl, hleft, rfl⟩
    · exact Or.inr (Or.inr hsame)
  · split_ifs with hclosed
    · exact Or.inr (Or.inr hsame)
    · exact Or.inr (Or.inl ⟨_, _, rfl, hclosed⟩)
  all_goals exact Or.inr (Or.inr hsame)

/-- A property that what becomes of the response, an internal redirect and the end of the pool
keep is kept by every event that does not run the handler. -/
theorem Visit.elsewhere_induction {P : Visit → Prop} {s : Visit}
    (hsettle : ∀ others coldStored, P (s.settle others coldStored))
    (hredirect : ∀ onlyIfCached, P (s.redirect onlyIfCached))
    (hclose : ∀ now gaps, P (s.close rb now gaps)) (e : VisitEvent) : P (s.elsewhere rb e) := by
  rcases elsewhere_cases rb s e with ⟨o, -, -, he⟩ | ⟨now, gaps, he, -⟩ | ⟨others, c, he⟩
  · exact he ▸ hredirect o
  · exact he ▸ hclose now gaps
  · exact he ▸ hsettle others c

end Access
end Http
end CacheTurbo
