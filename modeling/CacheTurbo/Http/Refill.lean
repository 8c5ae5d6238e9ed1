/-
# Purges and refills

A node, its second level, any number of requests, and one purge: of everything
(`L2/ScanDel`) or of a tag (`L2/TagPurge`).  A request asks the second level with a
`GET`, the server answers it at some time, the reply comes at another and is promoted
into the zone at a third; the purge empties the zone and has the server delete keys
in between.  Other purges are steps of the node: they drop records, and keys expire.

Each stored response has a number, which the code does not have: that of the store
that made it.  What the purge is to remove are the responses that were stored on both
levels when it began, `System.doomed`.
-/

import CacheTurbo.Http.ForeignBlob
import CacheTurbo.L2.ScanDel
import CacheTurbo.L2.TagUnlinks

namespace CacheTurbo
namespace Http
namespace Refill

open Bytes Blob
open Shm (Zone Rbtree ZoneOp Loans record)
open L2 (L2Prefix redisKey)

/-! ## The node -/

/-- A stored response and the number of its store. -/
structure Object where
  id : ℕ
  bytes : Bytes
  deriving DecidableEq

/-- A copy that a request has, and the key it found it under. -/
structure Copy where
  key : KeyHash
  id : ℕ
  bytes : Bytes
  deriving DecidableEq

/-- A key of the second level; `whole` is that it has been there since the walk began. -/
structure Entry where
  keyHash : KeyHash
  obj : Object
  whole : Bool
  deriving DecidableEq

/-- A request: whether it began after the purge had answered, the `GET` it waits for and what the
server answered it, `ctx->l2_blob`, and the bodies and snapshots it has. -/
structure Client where
  late : Bool
  asked : Option KeyHash
  wire : Option Copy
  l2Blob : Option Copy
  held : List Copy

/-- All that it may deliver, now or with the reply. -/
def Client.copies (c : Client) : List Copy := c.wire.toList ++ (c.l2Blob.toList ++ c.held)

/-- The zone with the number of what is under each digest, the second level, the `SET`s on their
way to it, the requests, and the number of the next store. -/
structure Node where
  loans : Loans
  origin : KeyHash → ℕ
  l2 : List Entry
  sets : List (KeyHash × Object)
  ctx : ℕ → Client
  next : ℕ

/-- What can happen on the node. -/
inductive NodeEvent
  /-- The request `q` begins. -/
  | begin (q : ℕ)
  /-- Something on the zone for the request `q`; it may send a `SET` of what it stored. -/
  | zone (q : ℕ) (e : Shm.Event) (set : Option (KeyHash × Bytes))
  /-- The server runs a `SET`, or it is lost. -/
  | setRun (k : ℕ)
  | setLost (k : ℕ)
  /-- Another node stores a response. -/
  | peerSet (keyHash : KeyHash) (bytes : Bytes)
  /-- A key expires, or somebody else deletes it. -/
  | expire (keyHash : KeyHash)
  /-- `backend->get`. -/
  | ask (q : ℕ) (keyHash : KeyHash)
  /-- The server runs the `GET`. -/
  | getRun (q : ℕ)
  /-- Its reply comes, or it fails. -/
  | reply (q : ℕ) (ok : Bool)
  /-- `ngx_http_cache_turbo_access_l2` on the reply: the verdicts of the request's bounds, whether
  the breaker's snapshot is wanted, and whether the pool has room for the other. -/
  | accessL2 (q : ℕ) (now : Time) (keyHash : KeyHash) (hash : UInt32)
      (l2FreshOk l2StaleOk brkArm room : Bool)

section Node

variable (rb : Rbtree)

/-- Write the context of the request `q`. -/
def Node.setCtx (n : Node) (q : ℕ) (c : Client) : Node := { n with ctx := Function.update n.ctx q c }

/-- The numbers after an operation that stores the response `id`. -/
def restamp (origin : KeyHash → ℕ) (now : Time) (op : ZoneOp) (answer : Shm.Answer) (id : ℕ) :
    KeyHash → ℕ :=
  match op.writes now, op.key with
  | some _, some k => if answer.ok then Function.update origin k id else origin
  | _, _ => origin

/-- One operation on the zone for the request `q`, which stores the response `id`. -/
def Node.runOp (n : Node) (q : ℕ) (now : Time) (op : ZoneOp) (id : ℕ) : Node :=
  let r := Shm.exec rb n.loans.zone now op
  let origin := restamp n.origin now op r.2 id
  let pins := op.key.toList.flatMap fun k =>
    r.2.pins.map fun b => Copy.mk k (origin k) (r.1.blob b).body
  { n with
    loans := n.loans.step rb (.op now op)
    origin := origin
    ctx := Function.update n.ctx q { n.ctx q with held := pins ++ (n.ctx q).held } }

/-- What is under a digest in the second level. -/
def Node.find (n : Node) (keyHash : KeyHash) : Option Entry :=
  n.l2.find? fun e => e.keyHash = keyHash

/-- The server stores `obj`; a key that is there stays there. -/
def Node.put (n : Node) (keyHash : KeyHash) (obj : Object) : Node :=
  { n with
    l2 := ⟨keyHash, obj, (n.find keyHash).any (·.whole)⟩ ::
      n.l2.filter fun e => e.keyHash ≠ keyHash }

/-- The two snapshots of `ngx_http_cache_turbo_access_l2_expired_arm`. -/
def Client.expiredArm (c : Client) (copy : Copy) (brkArm sie room : Bool) : Client :=
  { c with
    held := (if brkArm then [copy] else []) ++ ((if sie ∧ room then [copy] else []) ++ c.held) }

/-- `GET` is sent, answered and received where the location has a second level. -/
def Node.step (conf : L2.ScanDel.Conf) (told : Bool) (n : Node) : NodeEvent → Node
  | .begin q => n.setCtx q ⟨told, none, none, none, []⟩
  | .zone q (.op now op) set =>
      let m := n.runOp rb q now op n.next
      { m with
        next := n.next + 1
        sets := m.sets ++ (if conf.backend = .none then [] else
          set.toList.map fun p => (p.1, ⟨n.next, p.2⟩)) }
  | .zone _ e _ => { n with loans := n.loans.step rb e }
  | .setRun k =>
      match n.sets[k]? with
      | none => n
      | some p => { n.put p.1 p.2 with sets := n.sets.eraseIdx k }
  | .setLost k => { n with sets := n.sets.eraseIdx k }
  | .peerSet keyHash bytes =>
      if conf.backend = .none then n
      else { n.put keyHash ⟨n.next, bytes⟩ with next := n.next + 1 }
  | .expire keyHash => { n with l2 := n.l2.filter fun e => e.keyHash ≠ keyHash }
  | .ask q keyHash =>
      if conf.backend = .none then n
      else n.setCtx q { n.ctx q with asked := some keyHash, wire := none }
  | .getRun q =>
      match (n.ctx q).asked with
      | none => n
      | some keyHash => n.setCtx q { n.ctx q with
          wire := (n.find keyHash).map fun e => ⟨keyHash, e.obj.id, e.obj.bytes⟩ }
  | .reply q ok =>
      n.setCtx q { n.ctx q with
        asked := none
        wire := none
        l2Blob :=
          if ok then (n.ctx q).wire.map fun c => { c with bytes := blobClearVetted c.bytes }
          else none }
  | .accessL2 q now keyHash hash l2FreshOk l2StaleOk brkArm room =>
      match (n.ctx q).l2Blob with
      | none => n
      | some c =>
          match Http.accessL2 now l2FreshOk l2StaleOk c.bytes with
          | .expired sie => n.setCtx q ((n.ctx q).expiredArm c brkArm sie room)
          | .promote remFresh remStale =>
              n.runOp rb q now (.storeIf keyHash hash c.bytes remFresh remStale .newer false) c.id
          | .miss | .revalidate => n

end Node

/-! ## The purge -/

/-- The purge, if one has begun.  That of a tag comes with the digests that it has dropped from
the zone for the page it is about to deliver, and before that. -/
inductive Purging
  | idle
  | all (p : L2.ScanDel.State)
  | tag (w : L2.TagPurge.State) (dropping dropped : List KeyHash)

/-- The node and its purge: the number of the next store and those of the `SET`s on their way when
it began, the keys that the server has deleted for it, and, when it has answered that all is
purged, the keys it walked. -/
structure System where
  node : Node
  purge : Purging
  start : Option (ℕ × List ℕ)
  deleted : List Bytes
  told : Option (List Bytes)

/-- The responses that were stored on both levels when the purge began. -/
def System.doomed (s : System) (id : ℕ) : Bool :=
  match s.start with
  | none => false
  | some (next, pending) => decide (id < next) && !pending.contains id

/-- An answer that claims that all is purged. -/
def unqualified (a : L2.TagPurge.Answer) : Bool :=
  a.status == 200 &&
    match a.body with
    | .degraded _ => false
    | _ => true

/-- The keys on the pages of a tag purge that claims that all is purged. -/
def tagAnswer : List L2.TagPurge.Note → Option (List Bytes)
  | [] => none
  | .final _ a :: past =>
      if unqualified a then some (L2.TagPurge.received past).flatten else none
  | .answered a :: _ => if unqualified a then some [] else none
  | _ :: past => tagAnswer past

/-- The same for any purge; that of everything needs no list. -/
def Purging.answered : Purging → Option (List Bytes)
  | .idle => none
  | .all p => p.answer.bind fun a => if a.status = 200 then some [] else none
  | .tag w _ _ => tagAnswer w.log

/-- The purge is done with a digest in the zone. -/
def Purging.dropped (p : Purging) (keyHash : KeyHash) : Bool :=
  match p with
  | .idle => false
  | .all p =>
      match p.stage with
      | .emptying _ => false
      | .walking | .ended => !p.l1Incomplete
  | .tag _ dropping dropped => dropping.contains keyHash || dropped.contains keyHash

/-- The keys of which an outstanding or failed `UNLINK` of the purge may still be run. -/
def Purging.names (p : Purging) (key : Bytes) : Bool :=
  match p with
  | .idle => false
  | .all p => p.unlinks.any fun u => u.keys.contains key
  | .tag w _ _ => w.unlinks.any fun u => u.keys.contains key

/-- The digests that the handler of a page of a tag purge drops: those of the members that are
keys of objects, until a lock key cannot be allocated. -/
def pageDrops (pre : L2Prefix) : List Bytes → ℕ → List Bytes
  | [], _ => []
  | m :: ms, lockbufs =>
      if m = [] then pageDrops pre ms lockbufs
      else if m.length = pre.bytes.length + 64 then
        match L2.TagPurge.hexdecode (m.drop pre.bytes.length), lockbufs with
        | none, n => pageDrops pre ms n
        | some keyHash, 0 => [keyHash]
        | some keyHash, n + 1 => keyHash :: pageDrops pre ms n
      else pageDrops pre ms lockbufs

/-- What the handler of an event drops before it goes on. -/
def eventDrops (pre : L2Prefix) (env : L2.TagPurge.Env) (e : L2.TagPurge.Event) : List Bytes :=
  match e.page with
  | none => []
  | some members =>
      if env.tmp = true ∧ env.delkeys = true then pageDrops pre members env.lockbufs else []

/-- What can happen. -/
inductive SystemEvent
  | node (e : NodeEvent)
  /-- `?all=1`: the first hold of the mutex, and a further one. -/
  | allBegin (room : L2.ScanDel.AllRoom)
  | allHold (room : L2.ScanDel.AllRoom)
  | all (i : L2.ScanDel.Env × L2.ScanDel.Event)
  /-- `?tag=`. -/
  | tagBegin (room : L2.TagPurge.EnterRoom) (arg : Bytes)
  /-- The handler of a page drops a digest from the zone. -/
  | tagDrop (keyHash : KeyHash)
  | tag (i : L2.TagPurge.Env × L2.TagPurge.Event)
  /-- The server deletes a key that an `UNLINK` of the purge names. -/
  | unlinkRun (key : Bytes)

section System

variable (rb : Rbtree) (handleWriteEvent : Bool → Bool → Bool) (conf : L2.ScanDel.Conf)

/-- A purge begins. -/
def System.starts (s : System) (p : Purging) : System :=
  { s with purge := p, start := some (s.node.next, s.node.sets.map fun p => p.2.id) }

/-- Where the walk of everything begins, what is there is marked. -/
def System.setAll (s : System) (p : L2.ScanDel.State) : System :=
  { s with
    purge := .all p
    node := { s.node with
      l2 := if p.stage = .walking then s.node.l2.map fun e => { e with whole := true }
        else s.node.l2 } }

/-- What happens, without the announcement. -/
def System.move (s : System) : SystemEvent → System
  | .node e => { s with node := s.node.step rb conf s.told.isSome e }
  | .allBegin room =>
      match s.purge with
      | .idle =>
          (s.starts .idle).setAll (L2.ScanDel.adminPurgeAll conf room s.node.loans.zone)
      | .all _ | .tag _ _ _ => s
  | .allHold room =>
      match s.purge with
      | .all p =>
          match p.stage with
          | .emptying remaining =>
              let hold := L2.ScanDel.purgeAllHold rb s.node.loans.zone remaining
              { s with node := { s.node with
                  loans := s.node.loans.step rb (.op 0 (.purgeBatch remaining)) } }.setAll
                (L2.ScanDel.afterHold conf room hold.2.2 { p with purged := p.purged + hold.2.1 })
          | .walking | .ended => s
      | .idle | .tag _ _ _ => s
  | .all i =>
      match s.purge with
      | .all p => { s with purge := .all (L2.ScanDel.step conf p i) }
      | .idle | .tag _ _ _ => s
  | .tagBegin room arg =>
      match s.purge with
      | .idle => s.starts (.tag
          (L2.TagPurge.adminPurgeTag conf.redis room (decide (conf.backend = .redis)) arg) [] [])
      | .all _ | .tag _ _ _ => s
  | .tagDrop keyHash =>
      match s.purge with
      | .tag w dropping dropped =>
          { s with
            node := { s.node with loans := s.node.loans.step rb (.op 0 (.purgeKey keyHash)) }
            purge := .tag w (dropping ++ [keyHash]) dropped }
      | .idle | .all _ => s
  | .tag i =>
      match s.purge with
      | .tag w dropping dropped =>
          if eventDrops conf.redis.prefixBytes i.1 i.2 = dropping.map fun k => k.toList then
            { s with
              purge := .tag (L2.TagPurge.step handleWriteEvent conf.redis w i) []
                (dropping ++ dropped) }
          else s
      | .idle | .all _ => s
  | .unlinkRun key =>
      if s.purge.names key then
        { s with
          node := { s.node with
            l2 := s.node.l2.filter fun e => redisKey conf.redis.prefixBytes e.keyHash ≠ key }
          deleted := key :: s.deleted }
      else s

/-- One event; the first answer that claims that all is purged is remembered. -/
def System.step (s : System) (e : SystemEvent) : System :=
  let s := s.move rb handleWriteEvent conf e
  { s with told := s.told.or s.purge.answered }

/-- A node that begins. -/
def System.begin (z : Zone) : System where
  node := ⟨Loans.fresh z, fun _ => 0, [], [], fun _ => ⟨false, none, none, none, []⟩, 0⟩
  purge := .idle
  start := none
  deleted := []
  told := none

/-! ## What is asked of the code, and of others -/

/-- The digests that the purge says it has purged. -/
def System.Purges (s : System) (keyHash : KeyHash) : Prop :=
  match s.purge, s.told with
  | .all _, some _ => True
  | .tag _ _ _, some keys => redisKey conf.redis.prefixBytes keyHash ∈ keys
  | _, _ => False

/-- **A purge is not undone**: no request that began after it had answered has a response that was
to be removed, under a digest that was purged. -/
def System.Removed (s : System) : Prop :=
  ∀ q, (s.node.ctx q).late = true → ∀ c ∈ (s.node.ctx q).copies, s.doomed c.id = true →
    ¬ s.Purges conf c.key

/-- **A purge of everything is honest**, where there is a second level. -/
def System.Honest (s : System) : Prop :=
  match s.purge with
  | .all p => conf.backend ≠ .none → p.Honest
  | .idle | .tag _ _ _ => True

/-- What the server keeps to: `SCAN` names each key that has been there since the walk began, and
an `UNLINK` is answered without an error after its keys were deleted. -/
def ServerOk (s : System) : SystemEvent → Prop
  | .all (_, .read (.page cursor keys)) =>
      match s.purge with
      | .all p => p.stage = .walking → cursor = [48] → ∀ e ∈ s.node.l2, e.whole = true →
          ∃ page ∈ (cursor, keys) :: p.pages, redisKey conf.redis.prefixBytes e.keyHash ∈ page.2
      | .idle | .tag _ _ _ => True
  | .all (_, .ended k .acked) =>
      match s.purge with
      | .all p => ∀ u ∈ p.unlinks[k]?, ∀ key ∈ u.keys, key ∈ s.deleted
      | .idle | .tag _ _ _ => True
  | .tag (_, .unlink k e) =>
      match s.purge with
      | .tag w _ _ => ∀ u ∈ w.unlinks[k]?,
          match L2.drainEvent u.drain e with
          | .live _ => True
          | .done d _ => L2.RepliesOk d.expected d.recv → ∀ key ∈ u.keys, key ∈ s.deleted
      | .idle | .all _ => True
  | _ => True

/-- A verdict that promotes the copy. -/
def promotes : L2Verdict → Bool
  | .promote _ _ => true
  | .miss | .revalidate | .expired _ => false

/-- What the code does not see to: a response that the purge is to remove is not promoted under a
digest that it has dropped already; the purge of everything answers `200` at a page without keys
only, when all that it sent was acknowledged; and it can walk the second level. -/
def Orderly (s : System) : SystemEvent → Prop
  | .node (.accessL2 q now keyHash _ l2FreshOk l2StaleOk _ _) =>
      ∀ c ∈ (s.node.ctx q).l2Blob, s.doomed c.id = true → s.purge.dropped keyHash = true →
        promotes (Http.accessL2 now l2FreshOk l2StaleOk c.bytes) = false
  | .all i =>
      match s.purge with
      | .all p => p.Patient i
      | .idle | .tag _ _ _ => True
  | .allBegin _ => conf.backend ≠ .memcached
  | _ => True

end System

end Refill
end Http
end CacheTurbo
