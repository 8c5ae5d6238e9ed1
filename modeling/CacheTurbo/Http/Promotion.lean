/-
# Promotions from the second level

Any number of nodes, each with a zone and a clock of its own, and one second level behind
them all.  A request sends a `GET`, the server runs it at some time and the reply comes at
another; the request may then stay parked while others store, freshen, evict and promote
under its digest, before `ngx_http_cache_turbo_access_l2` goes on with the blob it was given.

Beside each digest of a zone the state has two ghosts: what was written there last, and the
deadline of the last response of the origin that nothing but promotions has displaced.
-/

import CacheTurbo.Http.ForeignBlob
import CacheTurbo.Http.RevalidateSpec

namespace CacheTurbo
namespace Http
namespace Promotion

open Bytes Blob
open Shm (Zone Rbtree ZoneOp Loans Record record)

/-! ## The nodes and the second level -/

/-- What was written last under a digest of a zone. -/
inductive Source
  /-- A response of the origin. -/
  | origin
  /-- This blob, from the second level. -/
  | promoted (blob : Bytes)
  /-- A marker, or the deadlines of a 304. -/
  | other
  deriving DecidableEq

/-- A request: the `GET` it waits for, what the server has answered, and `ctx->l2_blob`. -/
structure Client where
  asked : Option KeyHash
  wire : Option Bytes
  l2Blob : Option Bytes

/-- A node. -/
structure Host where
  loans : Loans
  clock : Time
  source : KeyHash → Source
  floor : KeyHash → Option Time
  ctx : ℕ → Client

/-- The nodes, the second level, and the `SET`s on their way to it. -/
structure System (ι : Type*) where
  host : ι → Host
  l2 : KeyHash → Option Bytes
  sets : List (KeyHash × Bytes)

/-- What can happen on a node. -/
inductive HostEvent
  /-- Its clock goes on. -/
  | tick (seconds : ℕ)
  /-- A response of the origin is stored, and, with a backend, a `SET` is sent. -/
  | respond (conf : CaptureConf) (backend : Bool) (keyHash : KeyHash) (hash : UInt32)
      (resp : OriginResponse) (captured : Captured) (wanted : Bool)
  /-- A 304 freshens the entry of a digest. -/
  | notModified (conf : CaptureConf) (keyHash : KeyHash) (resp : OriginResponse)
  /-- Any other operation on the zone, on any digest: lookups, leases, counts, markers and
  purges, with the evictions that their allocations bring. -/
  | zone (op : ZoneOp) (h : StoresNothing op)
  /-- A body on loan is read, released or freed. -/
  | loan (e : Shm.Event) (h : ∀ now op, e ≠ .op now op)
  /-- `backend->get`. -/
  | ask (q : ℕ) (keyHash : KeyHash)
  /-- Its reply comes, or it fails. -/
  | reply (q : ℕ) (ok : Bool)
  /-- The request goes on with the reply, under the digest that it has by then. -/
  | resume (q : ℕ) (keyHash : KeyHash) (hash : UInt32) (l2FreshOk l2StaleOk : Bool)

/-- What can happen. -/
inductive Event (ι : Type*)
  | node (i : ι) (e : HostEvent)
  /-- The server runs the `GET` of a request. -/
  | getRun (i : ι) (q : ℕ)
  /-- The server runs a `SET`, or it is lost. -/
  | setRun (n : ℕ)
  | setLost (n : ℕ)
  /-- Somebody else writes a key. -/
  | peerSet (keyHash : KeyHash) (blob : Bytes)
  /-- A key expires, or is deleted. -/
  | expire (keyHash : KeyHash)

section Step

variable (rb : Rbtree)

/-- An operation that writes a record or moves its deadlines. -/
def rewrites : ZoneOp → Bool
  | .store .. | .storeIf .. | .storeMarker .. | .freshen .. => true
  | _ => false

/-- The ghosts of a digest that an operation has rewritten. -/
def floorAfter (source : Source) (old new : Option Time) : Option Time :=
  match source with
  | .origin => new
  | .promoted _ => old
  | .other => none

/-- An operation on the zone; `source` is what it writes, if it does. -/
def Host.runOp (h : Host) (op : ZoneOp) (source : Source) : Host :=
  let r := Shm.exec rb h.loans.zone h.clock op
  let rewritten : KeyHash → Prop := fun k => op.key = some k ∧ rewrites op = true ∧ r.2.ok
  { h with
    loans := h.loans.step rb (.op h.clock op)
    source := fun k => if rewritten k then source else h.source k
    floor := fun k => (record r.1 k).bind fun w =>
      if rewritten k then floorAfter source (h.floor k) (some w.freshUntil) else h.floor k }

/-- The store of a response, and the `SET` that follows it unless it was declined. -/
def Host.respond (h : Host) (conf : CaptureConf) (backend : Bool) (keyHash : KeyHash)
    (hash : UInt32) (resp : OriginResponse) (captured : Captured) (wanted : Bool) :
    Host × Option (KeyHash × Bytes) :=
  match Life.stored conf h.clock resp captured with
  | none => (h, none)
  | some wb =>
      let op := bodyFilterStoreOp keyHash hash resp.status wb.2 wb.1 wanted
      let declined := match (Shm.exec rb h.loans.zone h.clock op).2 with
        | .stored .declined _ => true
        | _ => false
      (h.runOp rb op .origin, if declined || !backend then none else some (keyHash, wb.2))

/-- The reply of a `GET`, as both backends give it to the request. -/
def Client.reply (c : Client) (ok : Bool) : Client where
  asked := none
  wire := none
  l2Blob := if ok then c.wire.map blobClearVetted else none

/-- One event on a node, and the `SET` it sends. -/
def Host.step (h : Host) : HostEvent → Host × Option (KeyHash × Bytes)
  | .tick seconds => ({ h with clock := h.clock + seconds }, none)
  | .respond conf backend keyHash hash resp captured wanted =>
      h.respond rb conf backend keyHash hash resp captured wanted
  | .notModified conf keyHash resp =>
      let ttl := freshenTtl conf resp
      (h.runOp rb (.freshen keyHash ttl (staleTtl ttl conf.staleMult)) .other, none)
  | .zone op _ => (h.runOp rb op .other, none)
  | .loan e _ => ({ h with loans := h.loans.step rb e }, none)
  | .ask q keyHash =>
      ({ h with ctx := Function.update h.ctx q ⟨some keyHash, none, none⟩ }, none)
  | .reply q ok => ({ h with ctx := Function.update h.ctx q ((h.ctx q).reply ok) }, none)
  | .resume q keyHash hash l2FreshOk l2StaleOk =>
      match (h.ctx q).l2Blob with
      | none => (h, none)
      | some blob =>
          match accessL2 h.clock l2FreshOk l2StaleOk blob with
          | .promote remFresh remStale =>
              (h.runOp rb (.storeIf keyHash hash blob remFresh remStale .newer false)
                (.promoted blob), none)
          | .miss | .expired _ | .revalidate => (h, none)

variable {ι : Type*} [DecidableEq ι]

/-- One event. -/
def System.step (s : System ι) : Event ι → System ι
  | .node i e =>
      let r := (s.host i).step rb e
      { s with
        host := Function.update s.host i r.1
        sets := s.sets ++ r.2.toList }
  | .getRun i q =>
      let h := s.host i
      let ctx := Function.update h.ctx q { h.ctx q with wire := (h.ctx q).asked.bind s.l2 }
      { s with host := Function.update s.host i { h with ctx := ctx } }
  | .setRun n =>
      match s.sets[n]? with
      | none => s
      | some p => { s with l2 := Function.update s.l2 p.1 (some p.2), sets := s.sets.eraseIdx n }
  | .setLost n => { s with sets := s.sets.eraseIdx n }
  | .peerSet keyHash blob => { s with l2 := Function.update s.l2 keyHash (some blob) }
  | .expire keyHash => { s with l2 := Function.update s.l2 keyHash none }

end Step

/-- What a node begins with: blocks with any old bytes, and some time on its clock. -/
structure Boot where
  mem : Shm.Addr → Shm.Node
  blob : Shm.BlobId → Shm.Blob
  answers : ℕ → Option Shm.Addr
  sketch : Shm.Sketch
  admission : Bool
  breakerState : ℕ
  clock : ℕ

/-- A node that begins. -/
def Host.start (b : Boot) : Host where
  loans := Loans.fresh (Shm.freshZone b.mem b.blob b.answers b.sketch b.admission b.breakerState)
  clock := b.clock
  source := fun _ => .other
  floor := fun _ => none
  ctx := fun _ => ⟨none, none, none⟩

/-- Nodes that begin, over an empty second level. -/
def System.start {ι : Type*} (boot : ι → Boot) : System ι :=
  ⟨fun i => Host.start (boot i), fun _ => none, []⟩

/-! ## What is asked of a promotion -/

/-- A response with bytes. -/
structure Response (r : Record) : Prop where
  kind : r.kind = .entry
  len : 0 < r.len

/-- **A record within the life of a blob**: it is a response with the bytes of the blob, its
deadlines are not after those that the header of the blob gives, and it has both. -/
structure Within (blob : Bytes) (r : Record) : Prop extends Response r where
  body : r.body = blob
  fresh : r.freshUntil ≤ (blobHdrRead blob).created + (blobHdrRead blob).freshTtl
  stale : r.staleUntil ≤ (blobHdrRead blob).created + (blobHdrRead blob).staleTtl
  bounded : r.staleUntil ≠ 0

/-- What holds of a node in every state: a promoted blob is kept within its life, and a digest
that promotions alone have written since a response of the origin is as fresh as that was. -/
structure Host.Sound (h : Host) : Prop where
  origin : ∀ k r, h.source k = .origin → record h.loans.zone k = some r →
    Response r ∧ h.floor k = some r.freshUntil
  within : ∀ k blob r, h.source k = .promoted blob → record h.loans.zone k = some r → Within blob r
  floor : ∀ k t, h.floor k = some t →
    ∃ r, record h.loans.zone k = some r ∧ Response r ∧ t ≤ r.freshUntil

/-- **A promotion gives way**: a response under the digest that is fresher than the blob, now
that the request goes on with it, stays there with all its fields, and so does all else. -/
def Yields {ι : Type*} [DecidableEq ι] (rb : Rbtree) (s : System ι) : Event ι → Prop
  | .node i (.resume q keyHash hash l2FreshOk l2StaleOk) =>
      ∀ r, record (s.host i).loans.zone keyHash = some r → Response r →
        ∀ blob, ((s.host i).ctx q).l2Blob = some blob → ∀ remFresh remStale,
          accessL2 (s.host i).clock l2FreshOk l2StaleOk blob = .promote remFresh remStale →
            (s.host i).clock + remFresh < r.freshUntil →
              (s.step rb (.node i (.resume q keyHash hash l2FreshOk l2StaleOk))).host = s.host
  | _ => True

/-! ## One operation -/

section Proofs

variable (rb : Rbtree) {h : Host}

/-- The invariant of a node. -/
structure Host.Ok (h : Host) : Prop extends h.Sound where
  loans : h.loans.Ok
  clock : 0 ≤ h.clock

/-- What an operation may write, by its ghost. -/
def Source.Allows (source : Source) (w : Record) : Prop :=
  match source with
  | .origin => Response w
  | .promoted blob => Within blob w
  | .other => True

/-- A record that is not rewritten is kept, where it is not lost. -/
theorem record_unwritten (hloans : h.loans.Ok) (op : ZoneOp) (k : KeyHash)
    (hno : ¬ (op.key = some k ∧ rewrites op = true ∧
      (Shm.exec rb h.loans.zone h.clock op).2.ok)) :
    record (Shm.exec rb h.loans.zone h.clock op).1 k = none ∨
      record (Shm.exec rb h.loans.zone h.clock op).1 k = record h.loans.zone k := by
  rcases hloans.wf.recordMove rb h.clock op k with hlost | hkept | ⟨w, hkey, hw, hok, -⟩ |
    ⟨freshTtl, staleTtl, old, rfl, hok, -, -, -⟩
  · exact Or.inl hlost
  · exact Or.inr hkept
  · refine absurd ⟨hkey, ?_, hok⟩ hno
    cases op with
    | store | storeIf | storeMarker => rfl
    | _ => cases hw
  · exact absurd ⟨rfl, rfl, hok⟩ hno

/-- **A record after an operation** is the one that the operation wrote, unless that was a
304, or the one from before. -/
theorem record_after (hloans : h.loans.Ok) {op : ZoneOp} {k : KeyHash} {v : Record}
    (hv : record (Shm.exec rb h.loans.zone h.clock op).1 k = some v) :
    ((op.key = some k ∧ rewrites op = true ∧ (Shm.exec rb h.loans.zone h.clock op).2.ok) ∧
        (op.writes h.clock ≠ none → op.writes h.clock = some v)) ∨
      ¬(op.key = some k ∧ rewrites op = true ∧ (Shm.exec rb h.loans.zone h.clock op).2.ok) ∧
        record h.loans.zone k = some v := by
  by_cases hrw : op.key = some k ∧ rewrites op = true ∧ (Shm.exec rb h.loans.zone h.clock op).2.ok
  · refine Or.inl ⟨hrw, fun hop => ?_⟩
    obtain ⟨w, hw⟩ := Option.ne_none_iff_exists'.1 hop
    have hrec := hloans.wf.record_written rb hrw.1 hw hrw.2.2
    rw [hw, ← hrec, hv]
  · rcases record_unwritten rb hloans op k hrw with hlost | hkept
    · exact absurd (hlost.symm.trans hv) nofun
    · exact Or.inr ⟨hrw, hkept.symm.trans hv⟩

/-- **An operation keeps the invariant** where it writes what its ghost says, and a promotion
writes over nothing that is fresher. -/
theorem Host.Ok.runOp (hok : h.Ok) (op : ZoneOp) (source : Source)
    (hwrites : source = .other ∨ op.writes h.clock ≠ none)
    (hallows : ∀ w, op.writes h.clock = some w → source.Allows w)
    (hover : ∀ blob, source = .promoted blob → ∀ k r w, op.key = some k →
      record h.loans.zone k = some r → Response r → op.writes h.clock = some w →
        (Shm.exec rb h.loans.zone h.clock op).2.ok → r.freshUntil ≤ w.freshUntil) :
    (h.runOp rb op source).Ok where
  loans := hok.loans.step rb (.op h.clock op)
  clock := hok.clock
  origin := by
    intro k r hsrc hr
    have hr' : record (Shm.exec rb h.loans.zone h.clock op).1 k = some r := hr
    simp only [Host.runOp] at hsrc ⊢
    rw [hr', Option.bind_some]
    rcases record_after rb hok.loans hr' with ⟨hrw, hnew⟩ | ⟨hrw, hkept⟩
    · rw [if_pos hrw] at hsrc ⊢
      have hresp := hallows r (hnew (hwrites.resolve_left fun he => by rw [he] at hsrc; cases hsrc))
      rw [hsrc] at hresp ⊢
      exact ⟨hresp, rfl⟩
    · rw [if_neg hrw] at hsrc ⊢
      exact hok.origin k r hsrc hkept
  within := by
    intro k blob r hsrc hr
    simp only [Host.runOp] at hsrc
    rcases record_after rb hok.loans hr with ⟨hrw, hnew⟩ | ⟨hrw, hkept⟩
    · rw [if_pos hrw] at hsrc
      have hwithin := hallows r
        (hnew (hwrites.resolve_left fun he => by rw [he] at hsrc; cases hsrc))
      rw [hsrc] at hwithin
      exact hwithin
    · rw [if_neg hrw] at hsrc
      exact hok.within k blob r hsrc hkept
  floor := by
    intro k t hfloor
    simp only [Host.runOp] at hfloor
    cases hrec : record (Shm.exec rb h.loans.zone h.clock op).1 k with
    | none =>
      rw [hrec] at hfloor
      cases hfloor
    | some v =>
      rw [hrec, Option.bind_some] at hfloor
      refine ⟨v, hrec, ?_⟩
      rcases record_after rb hok.loans hrec with ⟨hrw, hnew⟩ | ⟨hrw, hkept⟩
      · rw [if_pos hrw] at hfloor
        cases source with
        | origin =>
          have hw := hnew (hwrites.resolve_left nofun)
          exact ⟨hallows v hw, le_of_eq (Option.some.inj hfloor).symm⟩
        | promoted blob =>
          have hw := hnew (hwrites.resolve_left nofun)
          obtain ⟨r, hr, hresp, hle⟩ := hok.floor k t hfloor
          exact ⟨(hallows v hw).toResponse,
            hle.trans (hover blob rfl k r v hrw.1 hr hresp hw hrw.2.2)⟩
        | other => cases hfloor
      · rw [if_neg hrw] at hfloor
        obtain ⟨r, hr, hresp, hle⟩ := hok.floor k t hfloor
        obtain rfl : v = r := Option.some.inj (hkept.symm.trans hr)
        exact ⟨hresp, hle⟩

/-! ## The two stores -/

/-- A response is the node that a lookup finds. -/
theorem Response.lookup {z : Zone} {k : KeyHash} {r : Record} (hrec : record z k = some r)
    (hr : Response r) : ∃ a, Shm.lookup z k = some a ∧ (z.mem a).kind = .entry ∧
      0 < (z.mem a).len ∧ (z.mem a).freshUntil = r.freshUntil := by
  obtain ⟨c, b, hview, -, rfl⟩ := Shm.record_some hrec
  obtain ⟨a, ha, rfl⟩ := Option.map_eq_some_iff.1 hview
  exact ⟨a, ha, hr.kind, hr.len, rfl⟩

/-- **A fresher response is not replaced.** -/
theorem storeIf_declined {z : Zone} {k : KeyHash} {r : Record} (hrec : record z k = some r)
    (hr : Response r) (hash : UInt32) {now freshTtl : Time} (staleTtl : Time) (data : Bytes)
    (hfresh : now + freshTtl < r.freshUntil) :
    Shm.exec rb z now (.storeIf k hash data freshTtl staleTtl .newer false) =
      (z, .stored .declined none) := by
  obtain ⟨a, ha, hkind, hlen, hdeadline⟩ := hr.lookup hrec
  have hrefuses : Shm.storeIfRefuses z (some a) now freshTtl .newer = true := by
    unfold Shm.storeIfRefuses
    dsimp only
    rw [if_pos ⟨hkind, hlen⟩, hdeadline]
    exact decide_eq_true hfresh
  have hstore : Shm.storeIf rb z k hash now data freshTtl staleTtl .newer false =
      (z, .declined, none) := by
    unfold Shm.storeIf
    rw [ha]
    exact if_pos hrefuses
  show (_, _) = _
  rw [hstore]

/-- What is left at an age that is not too small ends in time. -/
theorem deadline_le {now created age : ℤ} (hage : now - created ≤ age) (ttl : ℤ) :
    now + (ttl - age) ≤ created + ttl := by omega

/-- **What a promotion writes is within the life of its blob**, whatever the clock says. -/
theorem promote_within {now : Time} (hnow : 0 ≤ now) {l2FreshOk l2StaleOk : Bool} {blob : Bytes}
    {remFresh remStale : Time}
    (hv : accessL2 now l2FreshOk l2StaleOk blob = .promote remFresh remStale) :
    Within blob (.stored .entry blob now remFresh remStale) := by
  obtain ⟨hfresh, hstale, hpos⟩ := accessL2_promote hv
  rw [← hstale] at hpos
  have hlen : 0 < blob.length := by
    unfold accessL2 at hv
    cases hvalid : blobValidate now blob with
    | none =>
      rw [hvalid] at hv
      cases hv
    | some v => exact lt_of_lt_of_le (by decide) (blobValidate_hdr hvalid).1
  -- an age that is cut off at zero is no smaller than the one that was measured
  have hage : now - (blobHdrRead blob).created ≤
      if now - (blobHdrRead blob).created < 0 then 0 else now - (blobHdrRead blob).created := by
    split_ifs with hneg
    · exact le_of_lt hneg
    · exact le_rfl
  unfold l2Remaining at hfresh hstale
  dsimp only at hfresh hstale
  generalize (if now - (blobHdrRead blob).created < 0 then (0 : Time)
    else now - (blobHdrRead blob).created) = age at hage hfresh hstale
  have hdeadline : (Record.stored .entry blob now remFresh remStale).staleUntil =
      now + remStale := if_pos (ne_of_gt hpos)
  refine ⟨⟨rfl, hlen⟩, rfl, ?_, ?_, ?_⟩
  · rw [hfresh]
    exact deadline_le hage _
  · rw [hdeadline, hstale]
    exact deadline_le hage _
  · rw [hdeadline]
    exact ne_of_gt (Int.add_pos_of_nonneg_of_pos hnow hpos)

/-- A response that is stored has bytes. -/
theorem stored_length {conf : CaptureConf} {now : Time} {resp : OriginResponse}
    {captured : Captured} {wb : Windows × Bytes}
    (h : Life.stored conf now resp captured = some wb) : 0 < wb.2.length := by
  obtain ⟨w, -, hmap⟩ := Option.bind_eq_some_iff.1 h
  obtain ⟨blob, hblob, rfl⟩ := Option.map_eq_some_iff.1 hmap
  clear h hmap
  unfold captureBlob at hblob
  split_ifs at hblob
  obtain rfl := Option.some.inj hblob
  rw [bodyFilterBlobWrite, List.length_append]
  refine Nat.lt_of_lt_of_le ?_ (Nat.le_add_right _ _)
  simp [blobHdrWrite]

/-! ## Every step -/

theorem Host.Ok.start (b : Boot) : (Host.start b).Ok where
  origin := nofun
  within := nofun
  floor := nofun
  loans := ⟨Shm.Wf.freshZone .., nofun⟩
  clock := Int.natCast_nonneg _

/-- What is no store writes no record, and what is not rewritten keeps its ghost. -/
theorem Host.Ok.other (hok : h.Ok) (op : ZoneOp) : (h.runOp rb op .other).Ok :=
  hok.runOp rb op .other (Or.inl rfl) (fun _ _ => trivial) nofun

theorem bodyFilterStoreOp_writes (now : Time) (keyHash : KeyHash) (hash : UInt32) (status : ℕ)
    (wb : Windows × Bytes) (wanted : Bool) :
    (bodyFilterStoreOp keyHash hash status wb.2 wb.1 wanted).writes now =
      some (.stored .entry wb.2 now wb.1.ttl wb.1.staleWindow) := by
  unfold bodyFilterStoreOp
  split_ifs
  · rfl
  · rfl

theorem Host.Ok.respond (hok : h.Ok) (conf : CaptureConf) (backend : Bool) (keyHash : KeyHash)
    (hash : UInt32) (resp : OriginResponse) (captured : Captured) (wanted : Bool) :
    (h.respond rb conf backend keyHash hash resp captured wanted).1.Ok := by
  unfold Host.respond
  cases hwb : Life.stored conf h.clock resp captured with
  | none => exact hok
  | some wb =>
    have hwrites := bodyFilterStoreOp_writes h.clock keyHash hash resp.status wb wanted
    refine hok.runOp rb _ .origin (Or.inr ?_) (fun w hw => ?_) nofun
    · rw [hwrites]
      exact Option.some_ne_none _
    · obtain rfl := Option.some.inj (hwrites.symm.trans hw)
      exact ⟨rfl, stored_length hwb⟩

/-- **A promotion keeps the invariant.** -/
theorem Host.Ok.promote (hok : h.Ok) {l2FreshOk l2StaleOk : Bool} {blob : Bytes}
    {remFresh remStale : Time}
    (hv : accessL2 h.clock l2FreshOk l2StaleOk blob = .promote remFresh remStale)
    (keyHash : KeyHash) (hash : UInt32) :
    (h.runOp rb (.storeIf keyHash hash blob remFresh remStale .newer false)
      (.promoted blob)).Ok := by
  refine hok.runOp rb _ _ (Or.inr (Option.some_ne_none _)) (fun w hw => ?_) ?_
  · obtain rfl := Option.some.inj hw
    exact promote_within hok.clock hv
  · intro _ _ k r w hkey hr hresp hw hans
    obtain rfl := Option.some.inj hkey
    obtain rfl := Option.some.inj hw
    -- had it been fresher, the store would have been declined
    refine not_lt.1 fun hfresh => ?_
    rw [storeIf_declined rb hr hresp hash remStale blob hfresh] at hans
    cases hans

/-- The time and the requests are no part of the invariant, if the time is not before its
beginning. -/
theorem Host.Ok.of_zone (hok : h.Ok) {clock : Time} (hclock : 0 ≤ clock) (ctx : ℕ → Client) :
    ({ h with clock := clock, ctx := ctx } : Host).Ok :=
  ⟨⟨hok.origin, hok.within, hok.floor⟩, hok.loans, hclock⟩

theorem Host.Ok.step (hok : h.Ok) (e : HostEvent) : (h.step rb e).1.Ok := by
  cases e with
  | tick seconds =>
    exact hok.of_zone (Int.add_nonneg hok.clock (Int.natCast_nonneg _)) h.ctx
  | respond conf backend keyHash hash resp captured wanted =>
    exact hok.respond rb conf backend keyHash hash resp captured wanted
  | notModified conf keyHash resp => exact hok.other rb _
  | zone op hop => exact hok.other rb op
  | loan e he =>
    have hrec : ∀ k, record (h.loans.step rb e).zone k = record h.loans.zone k :=
      Ingress.record_loans rb h.loans he
    refine ⟨⟨fun k r hsrc hr => ?_, fun k blob r hsrc hr => ?_, fun k t ht => ?_⟩,
      hok.loans.step rb e, hok.clock⟩
    · exact hok.origin k r hsrc ((hrec k).symm.trans hr)
    · exact hok.within k blob r hsrc ((hrec k).symm.trans hr)
    · obtain ⟨r, hr, hle⟩ := hok.floor k t ht
      exact ⟨r, (hrec k).trans hr, hle⟩
  | ask q keyHash => exact hok.of_zone hok.clock _
  | reply q ok => exact hok.of_zone hok.clock _
  | resume q keyHash hash l2FreshOk l2StaleOk =>
    unfold Host.step
    dsimp only
    cases (h.ctx q).l2Blob with
    | none => exact hok
    | some blob =>
      dsimp only
      cases hv : accessL2 h.clock l2FreshOk l2StaleOk blob with
      | miss | expired | revalidate => exact hok
      | promote remFresh remStale => exact hok.promote rb hv keyHash hash

/-- Where a store is declined, the node stays as it is. -/
theorem Host.Ok.runOp_declined (hok : h.Ok) {op : ZoneOp} {source : Source}
    (hexec : Shm.exec rb h.loans.zone h.clock op = (h.loans.zone, .stored .declined none)) :
    h.runOp rb op source = h := by
  have hno : ∀ k, ¬ (op.key = some k ∧ rewrites op = true ∧
      (Shm.exec rb h.loans.zone h.clock op).2.ok) := by
    intro k hrw
    rw [hexec] at hrw
    cases hrw.2.2
  have hloans : h.loans.step rb (.op h.clock op) = h.loans := by
    show Loans.mk _ _ _ = h.loans
    rw [hexec]
    rfl
  have hsource : (h.runOp rb op source).source = h.source := funext fun k => if_neg (hno k)
  have hfloor : (h.runOp rb op source).floor = h.floor := by
    funext k
    have hrec : record (Shm.exec rb h.loans.zone h.clock op).1 k = record h.loans.zone k := by
      rw [hexec]
    simp only [Host.runOp, hrec, if_neg (hno k)]
    cases hr : record h.loans.zone k with
    | some w => rfl
    | none =>
      cases ht : h.floor k with
      | none => rfl
      | some t =>
        -- a floor stands under a record
        obtain ⟨r, hsome, -⟩ := hok.floor k t ht
        cases hr.symm.trans hsome
  calc h.runOp rb op source
      = { h with
          loans := h.loans.step rb (.op h.clock op)
          source := (h.runOp rb op source).source
          floor := (h.runOp rb op source).floor } := rfl
    _ = h := by rw [hloans, hsource, hfloor]

section System

variable {ι : Type*} [DecidableEq ι] {s : System ι}

/-- **Every event keeps the invariant of every node.** -/
theorem System.step_ok (hok : ∀ i, (s.host i).Ok) (e : Event ι) (j : ι) :
    ((s.step rb e).host j).Ok := by
  have hupdate : ∀ {i : ι} {h : Host}, h.Ok → (Function.update s.host i h j).Ok := by
    intro i h hh
    by_cases hj : j = i
    · rw [hj, Function.update_self]
      exact hh
    · rw [Function.update_of_ne hj]
      exact hok j
  cases e with
  | node i e => exact hupdate ((hok i).step rb e)
  | getRun i q => exact hupdate ((hok i).of_zone (hok i).clock _)
  | setRun n =>
    have hhost : (s.step rb (.setRun n)).host = s.host := by
      simp only [System.step]
      cases s.sets[n]? with
      | none => rfl
      | some p => rfl
    rw [hhost]
    exact hok j
  | setLost n => exact hok j
  | peerSet keyHash blob => exact hok j
  | expire keyHash => exact hok j

/-- **A promotion gives way**, in every state that keeps the invariant. -/
theorem System.yields (hok : ∀ i, (s.host i).Ok) (e : Event ι) : Yields rb s e := by
  cases e with
  | node i e =>
    cases e with
    | resume q keyHash hash l2FreshOk l2StaleOk =>
      intro r hr hresp blob hblob remFresh remStale hv hfresh
      have hstep : ((s.host i).step rb (.resume q keyHash hash l2FreshOk l2StaleOk)).1 =
          s.host i := by
        unfold Host.step
        dsimp only
        rw [hblob]
        dsimp only
        rw [hv]
        exact (hok i).runOp_declined rb
          (storeIf_declined rb hr hresp hash remStale blob hfresh)
      show Function.update s.host i _ = s.host
      rw [hstep, Function.update_eq_self]
    | _ => trivial
  | _ => trivial

/-- **Promotion never extends a life and displaces nothing fresher.**  In every run of any
number of nodes with clocks of their own, over one second level, whatever is stored, written
to the second level, asked of it, parked, promoted, freshened or evicted in between: a
promotion leaves a fresher response as it is, however long ago its `GET` was sent; a promoted
blob is kept within its life, and not for ever; and what promotions alone have written since a
response of the origin is as fresh as that was. -/
theorem promotion_sound (boot : ι → Boot) (run : List (Event ι)) :
    Run.Along (System.step rb) (Yields rb) (System.start boot) run ∧
      ∀ i, ((Run.after (System.step rb) (System.start boot) run).host i).Sound := by
  have hstart : ∀ i, ((System.start boot).host i).Ok := fun i => Host.Ok.start (boot i)
  refine ⟨Run.along_of_invariant (P := fun s : System ι => ∀ i, (s.host i).Ok)
    (C := fun _ _ => True)
    (fun s e hok _ => ⟨System.yields rb hok e, System.step_ok rb hok e⟩) hstart
    (Run.along_of_forall fun _ _ => trivial), fun i => ?_⟩
  exact (Run.after_invariant (P := fun s : System ι => ∀ i, (s.host i).Ok)
    (fun s e hok => System.step_ok rb hok e) hstart run i).toSound

end System

end Proofs

end Promotion
end Http
end CacheTurbo
