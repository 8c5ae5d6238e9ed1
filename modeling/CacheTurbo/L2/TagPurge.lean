/-
# The purge of a tag set

A purge walks the set of a tag page by page (`ngx_http_cache_turbo_redis_sscan`
and what follows it in `ngx_http_cache_turbo_redis.c`).  Each page is delivered to
`ngx_http_cache_turbo_tag_purge_complete`, which sends an `UNLINK` of the keys it
names and parks the walk; the completion of the `UNLINK` settles the page and
resumes it.

Four owners are in play and each may go first: the operation of the walk, the
operation of an `UNLINK`, which holds a token for its completion, the request, in
whose pool the purge lives, and the scratch pool of a page.  Pools are numbers in
the order they are created.  What nginx and the allocator answer is part of the
event; a call that a handler makes into another is a call here too.  What
`ngx_handle_write_event` does is a parameter.

What `fill`, `frame_scan` and `parse_scan` make of the bytes of a page is an input:
any cursor and any members.  A page answers the command, so it is not read before
the command is sent.  The keys that a page drops from the first level are left out.

Beside the state a log is kept of what happened, the newest first; the code does
not read it.
-/

import CacheTurbo.L2.Replies
import CacheTurbo.Match.AutoSkip

namespace CacheTurbo
namespace L2
namespace TagPurge

open Bytes Incremental

/-! ## The state -/

/-- `walk.status`. -/
inductive ScanStatus
  | ok
  | error
  | abort
  deriving DecidableEq, Repr

/-- The operation of a walk.  `live` is that `op_done` has not run, `reqCln` that the cleanup
`walk_detach` of the request is armed, `unsent` that the command is not sent yet, and
`writeTimer` and `writeActive` are the timer and the mark of the write event. -/
structure Walk where
  live : Bool
  suspended : Bool
  detached : Bool
  resumeDoomed : Bool
  reqCln : Bool
  unsent : Bool
  writeTimer : Bool
  writeActive : Bool
  scanStatus : ScanStatus
  scanPages : ℕ
  resumeCursor : Bytes
  rpool : ℕ
  deriving DecidableEq, Repr

/-- `ngx_http_cache_turbo_tagpurge_t`; `pageResume` is that the continuation is stored. -/
structure Purge where
  purged : ℕ
  pagePool : Option ℕ
  pageMembers : List Bytes
  pageResume : Bool
  pendingAtLaunch : ℕ
  deriving DecidableEq, Repr

/-- The operation of an `UNLINK`: the page it is for, the keys it names, its reader, and its
token `ngx_http_cache_turbo_tagpurge_await_t`. -/
structure Unlink where
  members : List Bytes
  keys : List Bytes
  drain : Drain
  alive : Bool
  cln : Bool
  pagePool : Option ℕ
  resume : Bool
  deriving DecidableEq, Repr

/-- Where the request is: the handlers have not answered it, it was finalised, it was
terminated before that, or its pool is gone after it was finalised. -/
inductive RequestState
  | parked
  | finalized
  | terminated
  | released
  deriving DecidableEq, Repr

/-- What an admin call can object to. -/
inductive Complaint
  | tagPurgeNeedsRedis
  | tagLength
  | tagBytes
  | backendUnavailable
  | deleteNotSent
  deriving DecidableEq, Repr

/-- The texts of the errors. -/
def Complaint.text : Complaint → Bytes
  | .tagPurgeNeedsRedis => lit "tag purge requires cache_turbo_redis".toList
  | .tagLength => lit "invalid tag: empty or too long (max 128 bytes)".toList
  | .tagBytes => lit "invalid tag: contains a space/tab/comma/CR/LF".toList
  | .backendUnavailable => lit "tag purge backend unavailable".toList
  | .deleteNotSent => lit "l2 delete not sent".toList

/-- What an answer says. -/
inductive Body
  | nothing
  | purged (n : ℕ)
  | degraded (n : ℕ)
  | incomplete (n : ℕ)
  | error (c : Complaint)
  deriving DecidableEq, Repr

/-- The text of a body. -/
def Body.text : Body → Bytes
  | .nothing => []
  | .purged n => lit "\x7b\"purged\":".toList ++ decimal n ++ lit "\x7d\n".toList
  | .degraded n =>
      lit "\x7b\"purged\":".toList ++ decimal n ++ lit ",\"complete\":false\x7d\n".toList
  | .incomplete n =>
      lit "\x7b\"purged\":".toList ++ decimal n ++ lit ",\"l2\":\"incomplete\"\x7d\n".toList
  | .error c => lit "\x7b\"error\":\"".toList ++ c.text ++ lit "\"\x7d\n".toList

/-- An answer. -/
structure Answer where
  status : ℕ
  body : Body
  deriving DecidableEq, Repr

/-- What happened. -/
inductive Note
  /-- A page was read. -/
  | received (cursor : Bytes) (members : List Bytes)
  /-- A page was delivered. -/
  | page (members : List Bytes)
  /-- The operation of an `UNLINK` ended: what it had received of its replies. -/
  | unlinked (members keys : List Bytes) (expected : ℕ) (recv : Bytes)
  /-- An `SREM` was handed over. -/
  | srem (members : List Bytes)
  /-- The final callback of the walk, and its answer. -/
  | final (status : ScanStatus) (a : Answer)
  /-- An answer without a walk. -/
  | answered (a : Answer)
  | opDone
  | finalize
  | terminated
  deriving DecidableEq, Repr

/-- The state of a purge. -/
structure State where
  walk : Walk
  purge : Purge
  unlinks : List Unlink
  request : RequestState
  nextPool : ℕ
  freed : List ℕ
  log : List Note

/-- Something happens. -/
def State.note (s : State) (n : Note) : State := { s with log := n :: s.log }

/-- `ngx_destroy_pool`, where there is one. -/
def State.destroyPool (s : State) (p : Option ℕ) : State :=
  match p with
  | none => s
  | some p => { s with freed := p :: s.freed }

/-- The location: the key prefix and `redis_enable`. -/
structure Conf where
  prefixBytes : L2Prefix
  redisEnable : Bool

/-- What the outside answers a command that is to be launched: the operation and its vectors
can be allocated; the buffers can, and the connection is there. -/
structure CmdRoom where
  op : Bool
  launch : Bool
  deriving DecidableEq, Repr

/-- What the outside answers in an event. -/
structure Env where
  /-- `ngx_create_pool` for a page, and the vector of its keys. -/
  tmp : Bool
  delkeys : Bool
  /-- How many lock keys can be allocated. -/
  lockbufs : ℕ
  unlink : CmdRoom
  /-- `ngx_pool_cleanup_add`. -/
  cleanup : Bool
  srem : CmdRoom
  /-- `walk_disarm_conn` and, on the next page, `ngx_handle_read_event`. -/
  disarm : Bool
  rearm : Bool
  /-- The wall-clock deadline of the walk has passed. -/
  deadline : Bool
  /-- The pool of the next page, and its buffers. -/
  pool : Bool
  buffers : Bool
  /-- The text of the answer. -/
  text : Bool
  deriving DecidableEq, Repr

/-! ## Commands -/

/-- `NGX_HTTP_CACHE_TURBO_REDIS_DEL_CHUNK`. -/
def delChunk : ℕ := 256

/-- What `ngx_http_cache_turbo_redis_cmd_many` answers; `launched` is `NGX_DONE`, with how many
replies are awaited. -/
inductive CmdRc
  | ok
  | error
  | launched (expected : ℕ)
  deriving DecidableEq, Repr

/-- `ngx_http_cache_turbo_redis_cmd_many`: the keys go into commands of `delChunk` keys. -/
def cmdMany (conf : Conf) (room : CmdRoom) (keepEmpty : Bool) (keys : List Bytes) : CmdRc :=
  if conf.redisEnable = false ∨ keys = [] then .ok
  else if room.op = false then .error
  else
    let kept := if keepEmpty then keys else keys.filter (· ≠ [])
    if kept = [] then .ok
    else if room.launch = false then .error
    else .launched ((kept.length + delChunk - 1) / delChunk)

/-- `ngx_http_cache_turbo_hexdecode`. -/
def hexdecode : Bytes → Option Bytes
  | [] => some []
  | [_] => none
  | h :: l :: src =>
      match Match.hexval h, Match.hexval l, hexdecode src with
      | some hi, some lo, some dst => some (((hi <<< 4) ||| lo) :: dst)
      | _, _, _ => none

/-- `ngx_http_cache_turbo_redis_lockkey`. -/
def redisLockkey (pre : L2Prefix) (keyHash : Bytes) : Bytes :=
  pre.bytes ++ lit ['l', 'o', 'c', 'k', ':'] ++ Http.hexDump keyHash

/-- The lock key that goes with a member, where the member is a key of an object. -/
def lockOf (pre : L2Prefix) (member : Bytes) : Option Bytes :=
  if member.length = pre.bytes.length + 64 then
    (hexdecode (member.drop pre.bytes.length)).map (redisLockkey pre)
  else none

/-- The keys that the `UNLINK` of a page names, where `lockbufs` of their lock keys can be
allocated. -/
def pageKeys (pre : L2Prefix) : List Bytes → ℕ → Option (List Bytes)
  | [], _ => some []
  | m :: ms, lockbufs =>
      if m = [] then pageKeys pre ms lockbufs
      else
        match lockOf pre m, lockbufs with
        | none, n => (pageKeys pre ms n).map (m :: ·)
        | some _, 0 => none
        | some lock, n + 1 => (pageKeys pre ms n).map fun ks => m :: lock :: ks

/-! ## The walk -/

/-- `NGX_HTTP_CACHE_TURBO_REDIS_SCAN_MAX_PAGES`. -/
def scanMaxPages : ℕ := 1024 * 1024

/-- `sizeof(op->resume_cursor_buf)`. -/
def resumeCursorSize : ℕ := 64

/-- `ngx_http_cache_turbo_redis_op_done` on the operation of a walk. -/
def opDone (s : State) : State :=
  { s with
    walk.live := false
    walk.reqCln := false
    freed := s.walk.rpool :: s.freed }.note .opDone

/-- `ngx_http_cache_turbo_tag_purge_complete` at the end of a walk. -/
def finalAnswer (s : State) (text : Bool) : Answer :=
  if text = false then ⟨500, .nothing⟩
  else if s.walk.scanStatus ≠ .ok then ⟨500, .incomplete s.purge.purged⟩
  else if s.purge.pendingAtLaunch ≠ 0 then ⟨200, .degraded s.purge.purged⟩
  else ⟨200, .purged s.purge.purged⟩

/-- `ngx_http_cache_turbo_redis_walk_finish`. -/
def walkFinish (env : Env) (s : State) : State :=
  if s.walk.detached then opDone s
  else
    let s := opDone (s.note (.final s.walk.scanStatus (finalAnswer s env.text)))
    { s with request := .finalized }.note .finalize

/-- `ngx_http_cache_turbo_redis_sscan_advance`. -/
def sscanAdvance (env : Env) (cursor : Bytes) (s : State) : State :=
  let s := { s with walk.scanPages := s.walk.scanPages + 1 }
  if cursor = [48] then walkFinish env { s with walk.scanStatus := .ok }
  else if s.walk.scanPages ≥ scanMaxPages then walkFinish env { s with walk.scanStatus := .abort }
  else if env.deadline then walkFinish env { s with walk.scanStatus := .abort }
  else if env.pool = false then walkFinish env s
  else
    let np := s.nextPool
    let s := { s with nextPool := np + 1 }
    if env.buffers = false then walkFinish env (s.destroyPool (some np))
    else
      let old := s.walk.rpool
      let s := { s with walk.rpool := np, walk.unsent := true }
      let s := s.destroyPool (some old)
      if env.rearm = false then walkFinish env s else s

/-- `ngx_http_cache_turbo_redis_sscan_resume`. -/
def sscanResume (env : Env) (rc : Bool) (s : State) : State :=
  if s.walk.suspended = false then s
  else
    let s := { s with walk.suspended := false }
    if s.walk.detached then opDone s
    else if rc = false ∨ s.walk.resumeDoomed then
      walkFinish env { s with walk.scanStatus := .error }
    else sscanAdvance env s.walk.resumeCursor s

/-- `ngx_http_cache_turbo_redis_walk_detach`. -/
def walkDetach (s : State) : State :=
  if s.walk.detached then s
  else
    let s := { s with walk.detached := true, walk.reqCln := false, walk.scanStatus := .error }
    if s.walk.suspended then { s with walk.resumeDoomed := true } else opDone s

/-! ## A page -/

/-- How many members of a page are not empty. -/
def nonEmpty (members : List Bytes) : ℕ := members.countP (· ≠ [])

/-- `ngx_http_cache_turbo_tag_purge_page_settle`. -/
def pageSettle (conf : Conf) (env : Env) (rc : Bool) (s : State) : State × Bool :=
  let settled : State × Bool :=
    if rc then
      let s := { s with purge.purged := s.purge.purged + nonEmpty s.purge.pageMembers }
      match cmdMany conf env.srem true s.purge.pageMembers with
      | .ok => (s, true)
      | .error => (s, false)
      | .launched _ => (s.note (.srem s.purge.pageMembers), true)
    else (s, false)
  let s := settled.1.destroyPool settled.1.purge.pagePool
  ({ s with purge.pagePool := none, purge.pageMembers := [] }, settled.2)

/-- `ngx_http_cache_turbo_tag_purge_page_unlinked`, the completion of an `UNLINK`. -/
def pageUnlinked (conf : Conf) (env : Env) (u : Unlink) (rc : Bool) (s : State) : State :=
  if u.alive = false then
    let s := s.destroyPool u.pagePool
    if u.resume then sscanResume env false s else s
  else
    let settled := pageSettle conf env rc s
    let s := { settled.1 with purge.pageResume := false }
    if settled.1.purge.pageResume then sscanResume env settled.2 s else s

/-- What the delivery of a page answers. -/
inductive PageRc
  | again
  | done
  | error
  deriving DecidableEq, Repr

/-- `ngx_http_cache_turbo_tag_purge_page_unlinked_locally`. -/
def pageUnlinkedLocally (conf : Conf) (env : Env) (rc : Bool) (s : State) : State × PageRc :=
  let settled := pageSettle conf env rc s
  let s := settled.1
  let s := if s.purge.pageResume then { s with walk.suspended := false, purge.pageResume := false }
    else s
  (s, if settled.2 then .done else .error)

/-- `ngx_http_cache_turbo_tag_purge_complete` on a page. -/
def deliverPage (conf : Conf) (env : Env) (members : List Bytes) (s : State) : State × PageRc :=
  let s := s.note (.page members)
  if env.tmp = false then (s, .error)
  else
    let tmp := s.nextPool
    let s := { s with nextPool := tmp + 1 }
    if env.delkeys = false then (s.destroyPool (some tmp), .error)
    else
      match pageKeys conf.prefixBytes members env.lockbufs with
      | none => (s.destroyPool (some tmp), .error)
      | some keys =>
          if s.walk.suspended then (s.destroyPool (some tmp), .error)
          else
            let s := { s with
              walk.suspended := true
              purge.pageResume := true
              purge.pagePool := some tmp
              purge.pageMembers := members }
            match cmdMany conf env.unlink false keys with
            | .launched expected =>
                if env.cleanup = false then
                  ({ s with
                      unlinks := s.unlinks ++
                        [⟨members, keys, ⟨expected, [], false⟩, false, false, some tmp, false⟩]
                      purge.pagePool := none
                      purge.pageResume := false
                      walk.suspended := false }, .error)
                else
                  ({ s with
                      unlinks := s.unlinks ++
                        [⟨members, keys, ⟨expected, [], false⟩, true, true, some tmp, true⟩] },
                    .again)
            | .ok => pageUnlinkedLocally conf env true s
            | .error => pageUnlinkedLocally conf env false s

/-! ## The connection of the walk -/

/-- What the reader of the walk finds: its timer ran out, nothing more for now, a failure, or a
page. -/
inductive SscanRead
  | timedout
  | again
  | failed
  | page (cursor : Bytes) (members : List Bytes)
  deriving DecidableEq, Repr

/-- `ngx_http_cache_turbo_redis_read_sscan`. -/
def readSscan (conf : Conf) (env : Env) (r : SscanRead) (s : State) : State :=
  if s.walk.suspended then
    if r = .timedout then { s with walk.scanStatus := .error, walk.resumeDoomed := true } else s
  else
    match r with
    | .timedout => walkFinish env s
    | .failed => walkFinish env s
    | .again => s
    | .page cursor members =>
        let s := s.note (.received cursor members)
        if members = [] then sscanAdvance env cursor s
        else
          let delivered := deliverPage conf env members s
          let s := delivered.1
          match delivered.2 with
          | .error => walkFinish env s
          | .done => sscanAdvance env cursor s
          | .again =>
              if s.walk.suspended = false then
                walkFinish env { s with walk.scanStatus := .error }
              else if env.disarm = false ∨ cursor.length > resumeCursorSize then
                { s with walk.resumeDoomed := true }
              else { s with walk.resumeCursor := cursor }

/-- What `send` makes of the rest of the command. -/
inductive SendRc
  | again
  | failed
  | whole
  deriving DecidableEq, Repr

/-- `ngx_http_cache_turbo_redis_write`.  `handleWriteEvent active syscall` is
`ngx_handle_write_event` on an event that is registered or not, where the call it makes to
register it would succeed or not; `r` is what the reader finds that runs at the end. -/
def walkWrite (handleWriteEvent : Bool → Bool → Bool) (conf : Conf) (env : Env) (timedout : Bool)
    (sent : SendRc) (syscall : Bool) (r : SscanRead) (s : State) : State :=
  let armed := handleWriteEvent s.walk.writeActive syscall
  if timedout then walkFinish env s
  else if s.walk.unsent = true ∧ sent = .failed then walkFinish env s
  else if s.walk.unsent = true ∧ sent = .again then
    if armed then { s with walk.writeActive := true } else walkFinish env s
  else
    let s := { s with walk.unsent := false, walk.writeTimer := false }
    if armed then readSscan conf env r { s with walk.writeActive := true } else walkFinish env s

/-! ## Steps -/

/-- What can happen. -/
inductive Event
  /-- The connection of the walk is not opened, or its preamble is refused. -/
  | refused
  /-- The write event of the walk. -/
  | write (timedout : Bool) (sent : SendRc) (syscall : Bool) (r : SscanRead)
  /-- The read event of the walk. -/
  | read (r : SscanRead)
  /-- An event of the `UNLINK` at place `k`. -/
  | unlink (k : ℕ) (e : DrainEvent)
  /-- The pool of the request is destroyed. -/
  | destroyRequest
  deriving DecidableEq, Repr

/-- A page is read once the command is sent. -/
def SscanRead.early (r : SscanRead) (unsent : Bool) : Bool :=
  match r with
  | .page _ _ => unsent
  | _ => false

/-- The cleanups of the request's pool, the last registered first: the tokens, then the walk. -/
def runCleanups (s : State) : State :=
  let s := { s with
    unlinks := s.unlinks.map fun u => if u.cln then { u with alive := false, cln := false } else u }
  if s.walk.reqCln then walkDetach s else s

/-- An event of the `UNLINK` `u` at place `k`; when it ends its operation goes and the
completion runs. -/
def unlinkEvent (conf : Conf) (env : Env) (k : ℕ) (u : Unlink) (e : DrainEvent) (s : State) :
    State :=
  match drainEvent u.drain e with
  | .live d => { s with unlinks := s.unlinks.set k { u with drain := d } }
  | .done d clean =>
      let s := { s with unlinks := s.unlinks.eraseIdx k }
      pageUnlinked conf env u (drainVerdict d clean)
        (s.note (.unlinked u.members u.keys d.expected d.recv))

/-- One event, with what the outside answers in it.  An event that cannot happen changes
nothing. -/
def step (handleWriteEvent : Bool → Bool → Bool) (conf : Conf) (s : State) (i : Env × Event) :
    State :=
  match i.2 with
  | .refused => if s.walk.live = true ∧ s.walk.unsent = true then walkFinish i.1 s else s
  | .write timedout sent syscall r =>
      if s.walk.live = true ∧ (timedout = true → s.walk.writeTimer = true) then
        walkWrite handleWriteEvent conf i.1 timedout sent syscall r s
      else s
  | .read r =>
      if s.walk.live = true ∧ r.early s.walk.unsent = false then readSscan conf i.1 r s else s
  | .unlink k e =>
      match s.unlinks[k]? with
      | none => s
      | some u => unlinkEvent conf i.1 k u e s
  | .destroyRequest =>
      match s.request with
      | .parked => runCleanups ({ s with request := .terminated }.note .terminated)
      | .finalized => runCleanups { s with request := .released }
      | .terminated => s
      | .released => s

/-! ## How a purge begins -/

/-- No walk. -/
def State.idle : State :=
  { walk := ⟨false, false, false, false, false, false, false, false, .error, 0, [], 0⟩
    purge := ⟨0, none, [], false, 0⟩
    unlinks := []
    request := .parked
    nextPool := 0
    freed := []
    log := [] }

/-- A walk was launched: its command is to be sent. -/
def State.launched (pending : ℕ) : State :=
  { State.idle with
    walk := ⟨true, false, false, false, true, true, true, false, .error, 0, [], 0⟩
    purge := ⟨0, none, [], false, pending⟩
    nextPool := 1 }

/-- An answer of the handler itself. -/
def State.answer (s : State) (a : Answer) : State :=
  { s with request := .finalized }.note (.answered a)

/-- What a handler finds before the walk: the allocations of the purge, of its tag and of the
set's key; whether `ngx_http_cache_turbo_redis_sscan` finds what it needs; the counters of
the zone; whether the delete of the base was handed over, how many objects the first level
dropped, and the text of the answer. -/
structure EnterRoom where
  pcalloc : Bool
  tag : Bool
  sscanKey : Bool
  sscan : Bool
  pending : ℕ
  del : Bool
  purged : ℕ
  text : Bool
  deriving DecidableEq, Repr

/-- `ngx_http_cache_turbo_redis_sscan`, as far as it says whether a walk was launched. -/
def sscanLaunched (conf : Conf) (room : EnterRoom) : Bool := conf.redisEnable && room.sscan

/-- `NGX_HTTP_CACHE_TURBO_MAX_TAG_LEN`. -/
def maxTagLen : ℕ := 128

/-- A byte that a tag cannot have. -/
def tagSeparator (ch : UInt8) : Bool := ch == 32 || ch == 9 || ch == 44 || ch == 13 || ch == 10

/-- `ngx_http_cache_turbo_admin_purge_tag`; `purgeTag` is that the backend has one. -/
def adminPurgeTag (conf : Conf) (room : EnterRoom) (purgeTag : Bool) (arg : Bytes) : State :=
  let s := State.idle
  if purgeTag = false then s.answer ⟨400, .error .tagPurgeNeedsRedis⟩
  else if arg.length = 0 ∨ arg.length > maxTagLen then s.answer ⟨400, .error .tagLength⟩
  else if arg.any tagSeparator then s.answer ⟨400, .error .tagBytes⟩
  else if room.pcalloc = false then s.answer ⟨500, .nothing⟩
  else if room.tag = false then s.answer ⟨500, .nothing⟩
  else if room.sscanKey = false then s.answer ⟨500, .nothing⟩
  else if sscanLaunched conf room then State.launched room.pending
  else s.answer ⟨502, .error .backendUnavailable⟩

/-- `ngx_http_cache_turbo_purge_auto_vary` on a backend with a tag index; `none` is
`NGX_OK`. -/
def purgeAutoVary (conf : Conf) (room : EnterRoom) : Option State :=
  if room.pcalloc = false then none
  else if room.tag = false then none
  else if room.sscanKey = false then none
  else if sscanLaunched conf room then some (State.launched room.pending)
  else none

/-- `ngx_http_cache_turbo_purge_request` from the delete of the base on, with auto-Vary and a
backend with a tag index. -/
def purgeRequest (conf : Conf) (room : EnterRoom) : State :=
  let s := State.idle
  if room.del = false then s.answer ⟨503, .error .deleteNotSent⟩
  else
    match purgeAutoVary conf room with
    | some s => s
    | none =>
        if room.text = false then s.answer ⟨500, .nothing⟩
        else s.answer ⟨200, .purged room.purged⟩

/-- Who asks for the purge. -/
inductive Entry
  | admin (purgeTag : Bool) (arg : Bytes)
  | base
  deriving DecidableEq, Repr

/-- The state in which a handler leaves the request. -/
def enter (conf : Conf) (room : EnterRoom) : Entry → State
  | .admin purgeTag arg => adminPurgeTag conf room purgeTag arg
  | .base => purgeRequest conf room

end TagPurge
end L2
end CacheTurbo
