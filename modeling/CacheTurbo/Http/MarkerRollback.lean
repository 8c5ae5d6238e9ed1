/-
# Taking a store back

A response that varies is stored under a key of its own, and then the marker is published that
leads there (`ngx_http_cache_turbo_body_filter_store_tail`).  Without its marker the body has to go
again: `ngx_http_cache_turbo_body_filter_rollback_store` removes the node if it still refers to the
body that was stored.  Each of the three is one hold of the mutex, and between them anything may
happen to the zone.

The code compares addresses.  The store has handed out a reference on its body, so the block is not
given to another body before the comparison, and equal addresses are equal bodies
(`Wf.purgeIfBlob_held`).  A tail is run here among the events of all the other requests
(`TailRun.step`), and `marker_rollback_exact` is about every such run.
-/

import CacheTurbo.Http.StoreTail
import CacheTurbo.Http.Marker
import CacheTurbo.Shm.Pins
import CacheTurbo.Shm.Lifetime

namespace CacheTurbo
namespace Shm

variable {held pending held' pending' : List BlobId} {z : Zone} (rb : Rbtree)

/-! ## Bodies that are held -/

/-- What is on loan is read up to order. -/
theorem Wf.loans_perm (h : Wf held pending [] [] [] z) (hheld : held.Perm held')
    (hpending : pending.Perm pending') : Wf held' pending' [] [] [] z where
  queues := h.queues
  heap :=
    { h.heap with
      held_live := fun b hb => h.heap.held_live b (hheld.mem_iff.2 hb)
      pending_nodup := hpending.nodup_iff.1 h.heap.pending_nodup
      pending_live := fun b hb => h.heap.pending_live b (hpending.mem_iff.2 hb)
      refs := fun b hb => by rw [h.heap.refs b hb, hheld.count_eq]
      pending_iff := fun b hb => by rw [← hpending.mem_iff, h.heap.pending_iff b hb] }

theorem Loans.Ok.perm {s s' : Loans} (h : s.Ok) (hzone : s'.zone = s.zone)
    (hheld : s.held.Perm s'.held) (hfrees : s.frees.Perm s'.frees) : s'.Ok where
  wf := by
    rw [hzone]
    exact h.wf.loans_perm hheld (hfrees.map Prod.fst)
  sizes job hjob := by
    rw [hzone]
    exact h.sizes job (hfrees.mem_iff.2 hjob)

/-- Two bodies that are allocated lie at two addresses. -/
theorem Heap.addr_inj {nodes : List Addr} {own : List BlobId}
    (h : Heap held pending nodes own z) {b c : BlobId} (hb : b ∈ z.slab.blobs)
    (hc : c ∈ z.slab.blobs) (haddr : (z.blob b).addr = (z.blob c).addr) : b = c := by
  have hnodup := (List.nodup_append.1 (h.taken.nodup_iff.1 h.nodup)).2.1
  exact List.inj_on_of_nodup_map hnodup hb hc haddr

/-- A node that is dropped leaves the other digests alone. -/
theorem Wf.view_dropKey (h : Wf held pending [] [] [] z) {k : KeyHash} {a : Addr}
    (hl : lookup z k = some a) {k' : KeyHash} (hne : k' ≠ k) :
    view (dropLocked rb z a) k' = view z k' := by
  obtain ⟨h', -, -⟩ := h.dropKey rb hl
  obtain ⟨ha, hk⟩ := h.queues.lookup_resident hl
  have hlookup : lookup (dropLocked rb z a) k' = lookup z k' := by
    refine Option.ext fun c => ?_
    rw [h'.queues.lookup_iff, h.queues.lookup_iff, h.resident_drop rb a, mem_dropLocked]
    refine and_congr_left fun hc => or_congr_left ?_
    have hca : c ≠ a := by
      rintro rfl
      exact hne (hc.symm.trans hk)
    exact List.mem_erase_of_ne hca
  rw [view, view, hlookup, mem_dropLocked]

/-- **The comparison of addresses is one of bodies**, for a body that the caller holds: the node
goes if it carries that very body, and nothing happens otherwise. -/
theorem Wf.purgeIfBlob_held (h : Wf held pending [] [] [] z) {b : BlobId} (hb : b ∈ held)
    (k : KeyHash) :
    (Carries z k b → view (Shm.purgeIfBlob rb z k b).1 k = none ∧
      ∀ k' ≠ k, view (Shm.purgeIfBlob rb z k b).1 k' = view z k') ∧
    (¬ Carries z k b → (Shm.purgeIfBlob rb z k b).1 = z) := by
  have hlive := h.heap.held_live b hb
  unfold Shm.purgeIfBlob
  cases hl : lookup z k with
  | none =>
    refine ⟨?_, fun _ => rfl⟩
    rintro ⟨c, hc, -⟩
    rw [view_none hl] at hc
    cases hc
  | some a =>
    obtain ⟨ha, -⟩ := h.queues.lookup_resident hl
    obtain ⟨-, -, hgone⟩ := h.dropKey rb hl
    have hcarries : Carries z k b ↔ (z.mem a).data = some b := by
      refine ⟨?_, carries_lookup hl⟩
      rintro ⟨c, hc, hdata⟩
      rw [view_lookup hl] at hc
      obtain rfl := Option.some.inj hc
      exact hdata
    rw [hcarries]
    dsimp only
    cases hdata : (z.mem a).data with
    | none => exact ⟨fun h => (by cases h), fun _ => rfl⟩
    | some c =>
      dsimp only
      have hclive := h.own_live ha hdata
      by_cases haddr : (z.blob c).addr = (z.blob b).addr
      · rw [if_neg (not_not.2 haddr)]
        obtain rfl := h.heap.addr_inj hclive hlive haddr
        exact ⟨fun _ => ⟨hgone, fun k' hne => h.view_dropKey rb hl hne⟩, fun hno => absurd rfl hno⟩
      · rw [if_pos haddr]
        refine ⟨fun hsame => ?_, fun _ => rfl⟩
        obtain rfl := Option.some.inj hsame
        exact absurd rfl haddr

/-! ## The body of a store is new -/

theorem Wf.blobAlloc_new {out loose : List Addr} {own : List BlobId}
    (h : Wf held pending out loose own z) {now : Time} {data : List UInt8} {z' : Zone} {b : BlobId}
    (hr : Shm.blobAlloc rb z now data = (z', some b)) : z.slab.serial ≤ b := by
  unfold Shm.blobAlloc at hr
  split at hr
  next => cases hr
  next z₀ base he =>
    obtain ⟨z₁, z₂, -, hev, hslab, rfl⟩ := h.allocEvict rb he
    obtain ⟨-, rfl⟩ := Heap.slabAlloc_some hslab
    obtain rfl := Option.some.inj (Prod.mk.inj hr).2
    exact hev.serial

theorem Wf.storeLocked_new (h : Wf held pending [] [] [] z) (k : KeyHash) (hash : UInt32)
    (now : Time) (data : List UInt8) (freshTtl staleTtl : Time) {ctn : Option Addr}
    (hctn : ctn = none ∨ ctn = lookup z k) {z' : Zone} {a : Addr} {b : BlobId}
    (hr : Shm.storeLocked rb z k hash now data freshTtl staleTtl ctn = (z', .ok, some a))
    (hb : (z'.mem a).data = some b) : z.slab.serial ≤ b := by
  have hor : ctn.or (lookup z k) = lookup z k := by
    rcases hctn with rfl | rfl
    · rfl
    · exact Option.or_self
  unfold Shm.storeLocked at hr
  rw [hor] at hr
  cases hl : lookup z k with
  | some c =>
    rw [hl] at hr
    obtain ⟨hc, -⟩ := h.queues.lookup_resident hl
    unfold Shm.storeRefresh at hr
    dsimp only at hr
    cases hbody : Shm.blobAlloc rb (lruUnlink z c) now data with
    | mk z₁ p =>
      rw [hbody] at hr
      cases p with
      | none => cases hr
      | some body =>
        obtain ⟨rfl, hrest⟩ := Prod.mk.inj hr
        obtain rfl := Option.some.inj (Prod.mk.inj hrest).2
        rw [Kept.mem_link, setNode_mem_self] at hb
        obtain rfl := Option.some.inj hb
        exact (h.unlink hc).blobAlloc_new rb hbody
  | none =>
    rw [hl] at hr
    obtain ⟨h₀, hk₀⟩ := h.shmAdmit hash
    unfold Shm.storeCreate at hr
    cases hadm : Shm.shmAdmit z hash with
    | mk z₀ admitted =>
      rw [hadm] at hr h₀ hk₀
      cases admitted with
      | false => cases hr
      | true =>
        dsimp only at hr
        cases hnode : Shm.allocEvict rb z₀ now sizeofNode with
        | mk z₁ p =>
          rw [hnode] at hr
          cases p with
          | none => cases hr
          | some node =>
            obtain ⟨h₁, hev⟩ := h₀.allocNode rb hnode
            dsimp only at hr
            cases hbody : Shm.blobAlloc rb z₁ now data with
            | mk z₂ p =>
              rw [hbody] at hr
              cases p with
              | none => cases hr
              | some body =>
                obtain ⟨rfl, hrest⟩ := Prod.mk.inj hr
                obtain rfl := Option.some.inj (Prod.mk.inj hrest).2
                rw [createNode_mem] at hb
                obtain rfl := Option.some.inj hb
                exact (hk₀.serial.trans hev.serial).trans (h₁.blobAlloc_new rb hbody)

/-- The reference that a store hands out is one on a body that was not there before. -/
theorem pinWritten_new {n : ℕ} (wanted : Bool) {r : Zone × Rc × Option Addr}
    (h : ∀ z' a b, r = (z', .ok, some a) → (z'.mem a).data = some b → n ≤ b) :
    ∀ b ∈ (Shm.pinWritten wanted r).2.2.toList, n ≤ b := by
  obtain ⟨z', rc, out⟩ := r
  have hnone : ∀ b ∈ (none : Option BlobId).toList, n ≤ b := fun b hb => absurd hb List.not_mem_nil
  cases rc with
  | declined | error | again => exact hnone
  | ok =>
    cases out with
    | none => exact hnone
    | some a =>
      cases wanted with
      | false => exact hnone
      | true =>
        cases hdata : (z'.mem a).data with
        | none =>
          rw [Shm.pinWritten, if_pos rfl, hdata]
          exact hnone
        | some c =>
          rw [Shm.pinWritten, if_pos rfl, hdata]
          intro b hb
          obtain rfl := List.mem_singleton.1 hb
          exact h z' a b rfl hdata

end Shm

namespace Http

open Bytes Blob
open Shm (Zone Rbtree BlobId Carries Loans Event view)

/-! ## The tail of a store -/

/-- What a store tail is run on.  The four flags say what the pool, the two digests and the
transport of the variant index answer. -/
structure StoreTask where
  conf : CaptureConf
  request : Request
  resp : OriginResponse
  captured : Captured
  cacheKey : Bytes
  keyHash : KeyHash
  varyBits : ℕ
  varyGen : ℕ
  coldWinner : Bool
  coldStored : Bool
  coldOwner : ℕ
  markerDate : Bytes
  buffer : Bool
  variantDigest : Bool
  markerDigest : Bool
  indexDropped : Bool

/-- `clcf->auto_vary && ctx->vary_bits > 0`. -/
def StoreTask.varies (task : StoreTask) : Bool := task.conf.autoVary && decide (task.varyBits > 0)

/-- Where a store tail is, and what its local variables hold. -/
inductive TailAt
  | begin
  | unstub (w : Windows) (blob : Bytes)
  | store (w : Windows) (blob : Bytes)
  | marker (w : Windows) (stored : Option BlobId)
  | index (stored : Option BlobId)
  | rollback (stored : Option BlobId)
  | release (stored : BlobId)
  | free (job : BlobId × ℕ)
  | done

/-- What a tail goes on to behind its marker: the release, if it was handed a reference. -/
def tailFinish : Option BlobId → TailAt
  | none => .done
  | some b => .release b

/-- A store tail, with the references it was handed and those it has dropped. -/
structure Tail where
  pc : TailAt
  handed : List BlobId
  dropped : List BlobId

section
variable (digest : Bytes → KeyHash) (crc : KeyHash → UInt32) (rb : Rbtree) (task : StoreTask)

/-- `store_key`. -/
def StoreTask.key : KeyHash :=
  storeKey digest task.conf.autoVary task.request task.cacheKey task.keyHash task.varyBits
    task.varyGen

/-- The tail before its first hold of the mutex. -/
def tailBegin (now : Time) : TailAt :=
  match bodyFilterWindows task.conf task.resp with
  | none => .done
  | some w =>
      match captureBlob task.conf now task.resp.status task.captured w with
      | none => .done
      | some blob =>
          if !task.buffer then .done
          else if task.varies && !task.variantDigest then .done
          else if task.coldWinner && !task.coldStored && task.key digest != task.keyHash then
            .unstub w blob
          else .store w blob

/-- One step of `ngx_http_cache_turbo_body_filter_store_tail`: what it does under one hold of the
mutex, or the one atomic access of `ngx_http_cache_turbo_blob_release`. -/
def tailStep (now : Time) (z : Zone) (t : Tail) : Zone × Tail :=
  match t.pc with
  | .begin => (z, { t with pc := tailBegin digest task now })
  | .unstub w blob =>
      (Shm.unstub rb z task.keyHash task.coldOwner now, { t with pc := .store w blob })
  | .store w blob =>
      match bodyFilterStore rb z (task.key digest) (crc (task.key digest)) now task.resp.status blob w
          task.varies with
      | (z, .declined, pin) => (z, { t with pc := .done, handed := pin.toList ++ t.handed })
      | (z, _, pin) =>
          -- a store that failed goes on to the marker as well
          (z, { t with
            pc := if task.varies then .marker w pin else .done
            handed := pin.toList ++ t.handed })
  | .marker w stored =>
      if !task.markerDigest then (z, { t with pc := .rollback stored })
      else
        match markerStoreKey rb z (markerHash digest task.cacheKey)
            (crc (markerHash digest task.cacheKey)) now task.markerDate task.varyBits task.varyGen
            w.ttl w.retainTtl with
        | (z, .ok) => (z, { t with pc := .index stored })
        | (z, _) => (z, { t with pc := .rollback stored })
  | .index stored =>
      (if task.indexDropped then Shm.varidxPendingSet z (task.key digest) true else z,
        { t with pc := tailFinish stored })
  | .rollback stored =>
      match stored with
      | none => (z, { t with pc := .done })
      | some b => ((Shm.purgeIfBlob rb z (task.key digest) b).1, { t with pc := .release b })
  | .release b =>
      match Shm.blobReleaseDrop z b with
      | (z, none) => (z, { t with pc := .done, dropped := b :: t.dropped })
      | (z, some job) => (z, { t with pc := .free job, dropped := b :: t.dropped })
  | .free job => (Shm.freeBlob z job.1 job.2, { t with pc := .done })
  | .done => (z, t)

/-- A store tail among the other requests: the zone with what they have in hand, and the tail. -/
structure TailRun where
  loans : Loans
  tail : Tail

/-- What can happen next: something that other requests do, or a step of the tail. -/
inductive TailEvent
  | other (e : Event)
  | self (now : Time)

def TailEvent.isSelf : TailEvent → Bool
  | .other _ => false
  | .self _ => true

/-- One step.  The others release and free what they have in hand, and that is not the tail's. -/
def TailRun.step (s : TailRun) : TailEvent → TailRun
  | .other e => { s with loans := s.loans.step rb e }
  | .self now =>
      let r := tailStep digest crc rb task now s.loans.zone s.tail
      { loans := { s.loans with zone := r.1 }, tail := r.2 }

end

/-- The tail before its first step. -/
def TailRun.start (z : Zone) : TailRun := ⟨Loans.fresh z, ⟨.begin, [], []⟩⟩

/-! ## What a tail has in hand -/

/-- The references of the tail. -/
def TailAt.mine : TailAt → List BlobId
  | .marker _ stored | .index stored | .rollback stored => stored.toList
  | .release b => [b]
  | .begin | .unstub _ _ | .store _ _ | .free _ | .done => []

/-- The frees of the tail. -/
def TailAt.jobs : TailAt → List (BlobId × ℕ)
  | .free job => [job]
  | _ => []

/-- How many steps are left at most. -/
def TailAt.rank : TailAt → ℕ
  | .begin => 7
  | .unstub _ _ => 6
  | .store _ _ => 5
  | .marker _ _ => 4
  | .index _ | .rollback _ => 3
  | .release _ => 2
  | .free _ => 1
  | .done => 0

/-- Everything that is on loan, the tail's included. -/
def TailRun.whole (s : TailRun) : Loans :=
  ⟨s.loans.zone, s.loans.held ++ s.tail.pc.mine, s.loans.frees ++ s.tail.pc.jobs⟩

/-- The books of a tail: what it was handed is what it has and what it dropped, and it was handed
nothing before its store and one reference at most. -/
structure Tail.Booked (t : Tail) : Prop where
  ledger : t.handed = t.pc.mine ++ t.dropped
  before : 5 ≤ t.pc.rank → t.handed = []
  once : t.handed.length ≤ 1

structure TailRun.Ok (s : TailRun) : Prop where
  loans : s.whole.Ok
  booked : s.tail.Booked

section
variable (digest : Bytes → KeyHash) (crc : KeyHash → UInt32) (rb : Rbtree) (task : StoreTask)

/-- What the others do they could do if the tail's loans were theirs. -/
theorem TailRun.Ok.other {s : TailRun} (h : s.Ok) (e : Event) :
    (s.step digest crc rb task (.other e)).Ok := by
  refine ⟨?_, h.booked⟩
  have hstep := h.loans.step rb e
  cases e with
  | op now op =>
    refine hstep.perm rfl (List.Perm.of_eq ?_) (List.Perm.refl _)
    exact (List.append_assoc _ _ _).symm
  | read b =>
    by_cases hb : b ∈ s.loans.held
    · have hloans : s.loans.step rb (.read b) = { s.loans with zone := s.loans.zone.access b } :=
        if_pos hb
      have hwhole : s.whole.step rb (.read b) = { s.whole with zone := s.whole.zone.access b } :=
        if_pos (List.mem_append_left _ hb)
      rw [hwhole] at hstep
      show (TailRun.whole ⟨s.loans.step rb (.read b), s.tail⟩).Ok
      rw [hloans]
      exact hstep
    · have hloans : s.loans.step rb (.read b) = s.loans := if_neg hb
      show (TailRun.whole ⟨s.loans.step rb (.read b), s.tail⟩).Ok
      rw [hloans]
      exact h.loans
  | release b =>
    by_cases hb : b ∈ s.loans.held
    · have hloans : s.loans.step rb (.release b) =
          ⟨(Shm.blobReleaseDrop s.loans.zone b).1, s.loans.held.erase b,
            (Shm.blobReleaseDrop s.loans.zone b).2.toList ++ s.loans.frees⟩ := if_pos hb
      have hwhole : s.whole.step rb (.release b) =
          ⟨(Shm.blobReleaseDrop s.loans.zone b).1, (s.loans.held ++ s.tail.pc.mine).erase b,
            (Shm.blobReleaseDrop s.loans.zone b).2.toList ++ (s.loans.frees ++ s.tail.pc.jobs)⟩ :=
        if_pos (List.mem_append_left _ hb)
      rw [hwhole, List.erase_append_left _ hb, ← List.append_assoc] at hstep
      show (TailRun.whole ⟨s.loans.step rb (.release b), s.tail⟩).Ok
      rw [hloans]
      exact hstep
    · have hloans : s.loans.step rb (.release b) = s.loans := if_neg hb
      show (TailRun.whole ⟨s.loans.step rb (.release b), s.tail⟩).Ok
      rw [hloans]
      exact h.loans
  | free job =>
    by_cases hjob : job ∈ s.loans.frees
    · have hloans : s.loans.step rb (.free job) =
          ⟨Shm.freeBlob s.loans.zone job.1 job.2, s.loans.held, s.loans.frees.erase job⟩ :=
        if_pos hjob
      have hwhole : s.whole.step rb (.free job) =
          ⟨Shm.freeBlob s.loans.zone job.1 job.2, s.loans.held ++ s.tail.pc.mine,
            (s.loans.frees ++ s.tail.pc.jobs).erase job⟩ := if_pos (List.mem_append_left _ hjob)
      rw [hwhole, List.erase_append_left _ hjob] at hstep
      show (TailRun.whole ⟨s.loans.step rb (.free job), s.tail⟩).Ok
      rw [hloans]
      exact hstep
    · have hloans : s.loans.step rb (.free job) = s.loans := if_neg hjob
      show (TailRun.whole ⟨s.loans.step rb (.free job), s.tail⟩).Ok
      rw [hloans]
      exact h.loans

/-- A hold of the mutex by the tail. -/
theorem TailRun.Ok.hold {s : TailRun} (h : s.Ok) (now : Time) (op : Shm.ZoneOp) (t : Tail)
    (hmine : t.pc.mine = (Shm.exec rb s.loans.zone now op).2.pins ++ s.tail.pc.mine)
    (hjobs : t.pc.jobs = s.tail.pc.jobs) :
    (TailRun.whole
      ⟨{ s.loans with zone := (Shm.exec rb s.loans.zone now op).1 }, t⟩).Ok := by
  have hstep := h.loans.step rb (.op now op)
  refine hstep.perm rfl ?_ (List.Perm.of_eq ?_)
  · simp only [TailRun.whole, Loans.step, hmine]
    rw [← List.append_assoc, ← List.append_assoc]
    exact List.perm_append_comm.append_right _
  · simp only [TailRun.whole, Loans.step, hjobs]

theorem markerStoreKey_exec (z : Zone) (k : KeyHash) (hash : UInt32) (now : Time) (date : Bytes)
    (bits gen : ℕ) (ttl retainTtl : Time) :
    (markerStoreKey rb z k hash now date bits gen ttl retainTtl).1 =
      (Shm.exec rb z now (.storeMarker k hash (markerBlob now date bits gen ttl retainTtl) ttl
        retainTtl)).1 := by
  unfold markerStoreKey
  split
  next z' heq => exact (congrArg Prod.fst heq).symm
  next z' rc _ heq => exact (congrArg Prod.fst heq).symm

/-- A store hands out a reference only when it succeeds, and only when it is asked for one. -/
theorem bodyFilterStore_pin (z : Zone) (k : KeyHash) (hash : UInt32) (now : Time) (status : ℕ)
    (blob : Bytes) (w : Windows) (wanted : Bool) :
    (bodyFilterStore rb z k hash now status blob w wanted).2.2 = none ∨
      (bodyFilterStore rb z k hash now status blob w wanted).2.1 = .ok ∧ wanted = true := by
  have hpin : ∀ r : Zone × Rc × Option Shm.Addr, (Shm.pinWritten wanted r).2.2 = none ∨
      (Shm.pinWritten wanted r).2.1 = .ok ∧ wanted = true := by
    rintro ⟨z', rc, out⟩
    cases rc with
    | declined | error | again => exact Or.inl rfl
    | ok =>
      cases out with
      | none => exact Or.inl rfl
      | some a =>
        cases wanted with
        | false => exact Or.inl rfl
        | true =>
          cases hdata : (z'.mem a).data with
          | none =>
            rw [Shm.pinWritten, if_pos rfl, hdata]
            exact Or.inl rfl
          | some b =>
            rw [Shm.pinWritten, if_pos rfl, hdata]
            exact Or.inr ⟨rfl, rfl⟩
  unfold bodyFilterStore
  split_ifs
  · unfold Shm.storeIf
    dsimp only
    split_ifs
    · exact Or.inl rfl
    · exact hpin _
  · exact hpin _

/-- What the store hands out: a new body, the one that it wrote, under its key. -/
theorem bodyFilterStore_handed {held pending : List BlobId} {z : Zone}
    (h : Shm.Wf held pending [] [] [] z) (k : KeyHash) (hash : UInt32) (now : Time) (status : ℕ)
    (blob : Bytes) (w : Windows) (wanted : Bool) :
    let r := bodyFilterStore rb z k hash now status blob w wanted
    ∀ b ∈ r.2.2.toList, z.slab.serial ≤ b ∧ (r.1.blob b).body = blob ∧ Carries r.1 k b := by
  have hbody : ∀ {z' : Zone} {rc : Rc} {pin : Option BlobId},
      Shm.StoreEffect z k now blob w.ttl w.staleWindow .entry z' rc pin →
      ∀ b ∈ pin.toList, (z'.blob b).body = blob := by
    intro z' rc pin he b hb
    rcases he with ⟨-, rfl, -⟩ | ⟨-, c, hpin | hpin, hc, -⟩
    · cases hb
    · rw [hpin] at hb
      cases hb
    · rw [hpin] at hb
      obtain rfl := List.mem_singleton.1 hb
      exact hc
  unfold bodyFilterStore
  split_ifs
  · obtain ⟨-, -, he⟩ := h.storeIf rb k hash now blob w.ttl w.staleWindow .absentOrDead wanted
    refine fun b hb => ⟨?_, hbody he b hb, he.pins b hb⟩
    revert b
    unfold Shm.storeIf
    dsimp only
    split_ifs
    · exact fun b hb => absurd hb List.not_mem_nil
    · exact Shm.pinWritten_new wanted fun z' a b hr hdata =>
        h.storeLocked_new rb k hash now blob w.ttl w.staleWindow (Or.inr rfl) hr hdata
  · obtain ⟨-, -, he⟩ := h.store rb k hash now blob w.ttl w.staleWindow wanted
    refine fun b hb => ⟨?_, hbody he b hb, he.pins b hb⟩
    exact Shm.pinWritten_new wanted (fun z' a b hr hdata =>
      h.storeLocked_new rb k hash now blob w.ttl w.staleWindow (Or.inl rfl) hr hdata) b hb

/-- The store: the reference that it hands out, if any, goes on to the marker. -/
theorem TailRun.Ok.selfStore {loans : Loans} {w : Windows} {blob : Bytes}
    {handed dropped : List BlobId}
    (h : TailRun.Ok ⟨loans, ⟨.store w blob, handed, dropped⟩⟩) (now : Time) :
    (TailRun.step digest crc rb task ⟨loans, ⟨.store w blob, handed, dropped⟩⟩ (.self now)).Ok := by
  obtain ⟨hledger, hbefore, -⟩ := h.booked
  have hhold := h.hold rb now
  dsimp only at hledger hbefore hhold
  have hempty := hbefore (show 5 ≤ 5 by decide)
  rw [hempty] at hledger
  have hdropped : dropped = [] := hledger.symm
  have hexec := exec_bodyFilterStoreOp rb loans.zone (task.key digest) (crc (task.key digest)) now
    task.resp.status blob w task.varies
  have hpin := bodyFilterStore_pin rb loans.zone (task.key digest) (crc (task.key digest)) now
    task.resp.status blob w task.varies
  show TailRun.Ok ⟨{ loans with zone := (tailStep digest crc rb task now loans.zone
    ⟨.store w blob, handed, dropped⟩).1 }, (tailStep digest crc rb task now loans.zone
    ⟨.store w blob, handed, dropped⟩).2⟩
  have hop := fun t => hhold (bodyFilterStoreOp (task.key digest) (crc (task.key digest))
    task.resp.status blob w task.varies) t
  rw [hexec] at hop
  rw [hempty, hdropped]
  simp only [tailStep]
  generalize bodyFilterStore rb loans.zone (task.key digest) (crc (task.key digest)) now
    task.resp.status blob w task.varies = r at hop hpin
  obtain ⟨z', rc, pin⟩ := r
  have hdone : pin = none → TailRun.Ok
      ⟨{ loans with zone := z' }, ⟨.done, pin.toList ++ [], []⟩⟩ := by
    rintro rfl
    exact ⟨hop ⟨.done, [], []⟩ rfl rfl, rfl, fun _ => rfl, Nat.zero_le 1⟩
  have hnext : TailRun.Ok
      ⟨{ loans with zone := z' }, ⟨if task.varies then .marker w pin else .done,
        pin.toList ++ [], []⟩⟩ := by
    by_cases hvaries : task.varies = true
    · rw [if_pos hvaries]
      refine ⟨hop ⟨.marker w pin, pin.toList ++ [], []⟩ (List.append_nil _).symm rfl, rfl,
        fun hrank => absurd hrank (show ¬ 5 ≤ 4 by decide), ?_⟩
      cases pin with
      | none => exact Nat.zero_le 1
      | some b => exact le_refl 1
    · rw [if_neg hvaries]
      exact hdone (hpin.resolve_right fun h => hvaries h.2)
  cases rc with
  | declined => exact hdone (hpin.resolve_right fun h => by cases h.1)
  | ok | error | again => exact hnext

/-- The marker, with the reference in hand whether it is published or not. -/
theorem TailRun.Ok.selfMarker {loans : Loans} {w : Windows} {stored : Option BlobId}
    {handed dropped : List BlobId}
    (h : TailRun.Ok ⟨loans, ⟨.marker w stored, handed, dropped⟩⟩) (now : Time) :
    (TailRun.step digest crc rb task ⟨loans, ⟨.marker w stored, handed, dropped⟩⟩ (.self now)).Ok := by
  obtain ⟨hledger, -, honce⟩ := h.booked
  have hhold := h.hold rb now
  dsimp only at hledger honce hhold
  have hop := fun t => hhold (.storeMarker (markerHash digest task.cacheKey)
    (crc (markerHash digest task.cacheKey)) (markerBlob now task.markerDate task.varyBits
      task.varyGen w.ttl w.retainTtl) w.ttl w.retainTtl) t
  rw [← markerStoreKey_exec] at hop
  show TailRun.Ok ⟨{ loans with zone := (tailStep digest crc rb task now loans.zone
    ⟨.marker w stored, handed, dropped⟩).1 }, (tailStep digest crc rb task now loans.zone
    ⟨.marker w stored, handed, dropped⟩).2⟩
  simp only [tailStep]
  by_cases hdigest : task.markerDigest = true
  · rw [hdigest, Bool.not_true, if_neg Bool.false_ne_true]
    generalize markerStoreKey rb loans.zone (markerHash digest task.cacheKey)
      (crc (markerHash digest task.cacheKey)) now task.markerDate task.varyBits task.varyGen
      w.ttl w.retainTtl = r at hop
    obtain ⟨z', rc⟩ := r
    cases rc with
    | ok =>
      exact ⟨hop ⟨.index stored, handed, dropped⟩ rfl rfl, hledger, 
        fun hrank => absurd hrank (show ¬ 5 ≤ 3 by decide), honce⟩
    | error | declined | again =>
      exact ⟨hop ⟨.rollback stored, handed, dropped⟩ rfl rfl, hledger, 
        fun hrank => absurd hrank (show ¬ 5 ≤ 3 by decide), honce⟩
  · rw [Bool.eq_false_iff.2 hdigest, Bool.not_false, if_pos rfl]
    exact ⟨h.loans, hledger, fun hrank => absurd hrank (show ¬ 5 ≤ 3 by decide), honce⟩

theorem TailRun.Ok.selfIndex {loans : Loans} {stored : Option BlobId} {handed dropped : List BlobId}
    (h : TailRun.Ok ⟨loans, ⟨.index stored, handed, dropped⟩⟩) (now : Time) :
    (TailRun.step digest crc rb task ⟨loans, ⟨.index stored, handed, dropped⟩⟩ (.self now)).Ok := by
  obtain ⟨hledger, -, honce⟩ := h.booked
  have hhold := h.hold rb now
  dsimp only at hledger honce hhold
  have hmine : (tailFinish stored).mine = stored.toList := by cases stored <;> rfl
  have hjobs : (tailFinish stored).jobs = [] := by cases stored <;> rfl
  have hrank : ¬ 5 ≤ (tailFinish stored).rank := by
    cases stored
    · show ¬ 5 ≤ 0
      decide
    · show ¬ 5 ≤ 2
      decide
  have hop := hhold (.varidxPendingSet (task.key digest) true)
    ⟨tailFinish stored, handed, dropped⟩ hmine hjobs
  refine ⟨?_, hledger.trans (congrArg (· ++ dropped) hmine.symm), fun h => absurd h hrank, honce⟩
  show (TailRun.whole ⟨⟨if task.indexDropped = true then
    Shm.varidxPendingSet loans.zone (task.key digest) true else loans.zone,
    loans.held, loans.frees⟩, ⟨tailFinish stored, handed, dropped⟩⟩).Ok
  by_cases hmark : task.indexDropped = true
  · rw [if_pos hmark]
    exact hop
  · rw [if_neg hmark]
    refine h.loans.perm rfl (List.Perm.of_eq ?_) (List.Perm.of_eq ?_)
    · exact congrArg (loans.held ++ ·) hmine.symm
    · exact congrArg (loans.frees ++ ·) hjobs.symm

/-- The release: what was handed out goes to what was dropped. -/
theorem TailRun.Ok.selfRelease {loans : Loans} {b : BlobId} {handed dropped : List BlobId}
    (h : TailRun.Ok ⟨loans, ⟨.release b, handed, dropped⟩⟩) (now : Time) :
    (TailRun.step digest crc rb task ⟨loans, ⟨.release b, handed, dropped⟩⟩ (.self now)).Ok := by
  obtain ⟨hledger, -, honce⟩ := h.booked
  dsimp only at hledger honce
  have hlive : b ∈ (TailRun.whole ⟨loans, ⟨.release b, handed, dropped⟩⟩).held :=
    List.mem_append_right _ (List.mem_singleton_self b)
  have hstep := h.loans.step rb (.release b)
  have hwhole : (TailRun.whole ⟨loans, ⟨.release b, handed, dropped⟩⟩).step rb (.release b) =
      ⟨(Shm.blobReleaseDrop loans.zone b).1, (loans.held ++ [b]).erase b,
        (Shm.blobReleaseDrop loans.zone b).2.toList ++ (loans.frees ++ [])⟩ := if_pos hlive
  rw [hwhole] at hstep
  have hback : ((loans.held ++ [b]).erase b).Perm loans.held := by
    have hperm := (List.perm_append_singleton b loans.held).erase b
    rwa [List.erase_cons_head] at hperm
  show TailRun.Ok ⟨{ loans with zone := (tailStep digest crc rb task now loans.zone
    ⟨.release b, handed, dropped⟩).1 }, (tailStep digest crc rb task now loans.zone
    ⟨.release b, handed, dropped⟩).2⟩
  simp only [tailStep]
  generalize Shm.blobReleaseDrop loans.zone b = r at hstep
  obtain ⟨z', job⟩ := r
  cases job with
  | none =>
    refine ⟨hstep.perm rfl ?_ (List.Perm.refl _), hledger,
      fun hrank => absurd hrank (show ¬ 5 ≤ 0 by decide), honce⟩
    exact hback.trans (List.Perm.of_eq (List.append_nil _).symm)
  | some job =>
    refine ⟨hstep.perm rfl ?_ ?_, hledger,
      fun hrank => absurd hrank (show ¬ 5 ≤ 1 by decide), honce⟩
    · exact hback.trans (List.Perm.of_eq (List.append_nil _).symm)
    · show ([job] ++ (loans.frees ++ [])).Perm (loans.frees ++ [job])
      rw [List.append_nil]
      exact List.perm_append_comm

theorem TailRun.Ok.selfFree {loans : Loans} {job : BlobId × ℕ} {handed dropped : List BlobId}
    (h : TailRun.Ok ⟨loans, ⟨.free job, handed, dropped⟩⟩) (now : Time) :
    (TailRun.step digest crc rb task ⟨loans, ⟨.free job, handed, dropped⟩⟩ (.self now)).Ok := by
  obtain ⟨hledger, -, honce⟩ := h.booked
  dsimp only at hledger honce
  have hjob : job ∈ (TailRun.whole ⟨loans, ⟨.free job, handed, dropped⟩⟩).frees :=
    List.mem_append_right _ (List.mem_singleton_self job)
  have hstep := h.loans.step rb (.free job)
  have hwhole : (TailRun.whole ⟨loans, ⟨.free job, handed, dropped⟩⟩).step rb (.free job) =
      ⟨Shm.freeBlob loans.zone job.1 job.2, loans.held ++ [], (loans.frees ++ [job]).erase job⟩ :=
    if_pos hjob
  rw [hwhole] at hstep
  refine ⟨hstep.perm rfl (List.Perm.refl _) ?_, hledger,
    fun hrank => absurd hrank (show ¬ 5 ≤ 0 by decide), honce⟩
  have hperm := (List.perm_append_singleton job loans.frees).erase job
  rw [List.erase_cons_head] at hperm
  exact hperm.trans (List.Perm.of_eq (List.append_nil _).symm)

/-- **The tail's own steps keep its books.** -/
theorem TailRun.Ok.self {s : TailRun} (h : s.Ok) (now : Time) :
    (s.step digest crc rb task (.self now)).Ok := by
  obtain ⟨loans, pc, handed, dropped⟩ := s
  have hledger := h.booked.ledger
  have hbefore := h.booked.before
  have honce := h.booked.once
  have hhold := h.hold rb now
  dsimp only at hledger hbefore honce hhold
  cases pc with
  | begin =>
    -- nothing is touched, and nothing handed out
    have hnext : (tailBegin digest task now).mine = [] ∧ (tailBegin digest task now).jobs = [] := by
      unfold tailBegin
      split
      · exact ⟨rfl, rfl⟩
      · split
        · exact ⟨rfl, rfl⟩
        · split_ifs <;> exact ⟨rfl, rfl⟩
    refine ⟨?_, ?_⟩
    · show (TailRun.whole ⟨loans, tailBegin digest task now, handed, dropped⟩).Ok
      unfold TailRun.whole
      dsimp only
      rw [hnext.1, hnext.2]
      exact h.loans
    · show Tail.Booked ⟨tailBegin digest task now, handed, dropped⟩
      refine ⟨?_, fun _ => hbefore (by decide), honce⟩
      dsimp only
      rw [hnext.1]
      exact hledger
  | unstub w blob =>
    exact ⟨hhold (.unstub task.keyHash task.coldOwner) ⟨.store w blob, handed, dropped⟩ rfl rfl,
      hledger, fun _ => hbefore (show 5 ≤ 6 by decide), honce⟩
  | store w blob => exact h.selfStore digest crc rb task now
  | marker w stored => exact h.selfMarker digest crc rb task now
  | index stored => exact h.selfIndex digest crc rb task now
  | rollback stored =>
    cases stored with
    | none =>
      exact ⟨h.loans, hledger, fun hrank => absurd hrank (show ¬ 5 ≤ 0 by decide), honce⟩
    | some b =>
      exact ⟨hhold (.purgeIfBlob (task.key digest) b) ⟨.release b, handed, dropped⟩ rfl rfl,
        hledger, fun hrank => absurd hrank (show ¬ 5 ≤ 2 by decide), honce⟩
  | release b => exact h.selfRelease digest crc rb task now
  | free job => exact h.selfFree digest crc rb task now
  | done => exact h

/-- Every own step is one step less. -/
theorem tailStep_rank (now : Time) (z : Zone) (t : Tail) :
    (tailStep digest crc rb task now z t).2.pc.rank ≤ t.pc.rank - 1 := by
  obtain ⟨pc, handed, dropped⟩ := t
  cases pc with
  | begin =>
    show (tailBegin digest task now).rank ≤ 6
    unfold tailBegin
    split
    · exact Nat.zero_le 6
    · split
      · exact Nat.zero_le 6
      · split_ifs
        · exact Nat.zero_le 6
        · exact Nat.zero_le 6
        · exact le_refl 6
        · exact Nat.le_succ 5
  | unstub w blob => exact le_refl 5
  | store w blob =>
    simp only [tailStep]
    have hnext : (if task.varies then TailAt.marker w
        (bodyFilterStore rb z (task.key digest) (crc (task.key digest)) now task.resp.status blob w
          task.varies).2.2 else .done).rank ≤ 4 := by
      split_ifs
      · exact le_refl 4
      · exact Nat.zero_le 4
    split
    · exact Nat.zero_le 4
    · rename_i heq
      rw [heq] at hnext
      exact hnext
  | marker w stored =>
    simp only [tailStep]
    split_ifs
    · exact le_refl 3
    · split
      · exact le_refl 3
      · exact le_refl 3
  | index stored =>
    cases stored with
    | none => exact Nat.zero_le 2
    | some b => exact le_refl 2
  | rollback stored =>
    cases stored with
    | none => exact Nat.zero_le 2
    | some b => exact le_refl 2
  | release b =>
    simp only [tailStep]
    split
    · exact Nat.zero_le 1
    · exact le_refl 1
  | free job => exact le_refl 0
  | done => exact le_refl 0

theorem TailRun.rank_after (s : TailRun) (run : List TailEvent) :
    (Run.after (TailRun.step digest crc rb task) s run).tail.pc.rank ≤
      s.tail.pc.rank - run.countP TailEvent.isSelf := by
  induction run generalizing s with
  | nil => exact le_refl _
  | cons e run ih =>
    refine (ih _).trans ?_
    rw [List.countP_cons]
    cases e with
    | other e => exact le_refl _
    | self now =>
      have hstep := tailStep_rank digest crc rb task now s.loans.zone s.tail
      have hself : (TailEvent.self now).isSelf = true := rfl
      rw [if_pos hself]
      show (tailStep digest crc rb task now s.loans.zone s.tail).2.pc.rank - _ ≤ _
      omega

theorem TailRun.Ok.step {s : TailRun} (h : s.Ok) (e : TailEvent) :
    (s.step digest crc rb task e).Ok := by
  cases e with
  | other e => exact h.other digest crc rb task e
  | self now => exact h.self digest crc rb task now

theorem TailRun.Ok.start {z : Zone} (h : Shm.Wf [] [] [] [] [] z) : (TailRun.start z).Ok where
  loans := ⟨h, fun _ hjob => absurd hjob List.not_mem_nil⟩
  booked := ⟨rfl, fun _ => rfl, Nat.zero_le 1⟩

/-- What is to hold of a tail among the other requests: nothing is released that is still in use,
the store hands out the body that it wrote, a rollback removes that body and no other, and each
reference is dropped once. -/
structure TailRun.Exact (s : TailRun) : Prop where
  sound : s.whole.Sound
  stores : ∀ w blob now, s.tail.pc = .store w blob →
    let s' := s.step digest crc rb task (.self now)
    ∀ b ∈ s'.tail.handed, s.loans.zone.slab.serial ≤ b ∧ (s'.loans.zone.blob b).body = blob ∧
      Carries s'.loans.zone (task.key digest) b
  rolls : ∀ b now, s.tail.pc = .rollback (some b) →
    let s' := s.step digest crc rb task (.self now)
    s.tail.handed = [b] ∧
      (Carries s.loans.zone (task.key digest) b → view s'.loans.zone (task.key digest) = none ∧
        ∀ k ≠ task.key digest, view s'.loans.zone k = view s.loans.zone k) ∧
      (¬ Carries s.loans.zone (task.key digest) b → s'.loans.zone = s.loans.zone)
  ledger : s.tail.handed = s.tail.pc.mine ++ s.tail.dropped
  once : s.tail.handed.length ≤ 1
  released : s.tail.pc = .done → s.tail.dropped = s.tail.handed ∧ s.loans.Sound

theorem TailRun.Ok.exact {s : TailRun} (h : s.Ok) : s.Exact digest crc rb task := by
  obtain ⟨loans, pc, handed, dropped⟩ := s
  obtain ⟨hledger, hbefore, honce⟩ := h.booked
  refine ⟨h.loans.sound, ?_, ?_, hledger, honce, ?_⟩
  · rintro w blob now rfl
    obtain rfl : handed = [] := hbefore (show 5 ≤ 5 by decide)
    have hwf : Shm.Wf _ _ [] [] [] loans.zone := h.loans.wf
    have hhanded := bodyFilterStore_handed rb hwf (task.key digest) (crc (task.key digest)) now
      task.resp.status blob w task.varies
    simp only [TailRun.step, tailStep]
    split
    all_goals
      rename_i heq
      rw [heq] at hhanded
      intro b hb
      rw [List.append_nil] at hb
      exact hhanded b hb
  · rintro b now rfl
    have hone : handed = [b] := by
      cases dropped with
      | nil => exact hledger
      | cons c dropped =>
        rw [hledger] at honce
        exact absurd honce (Nat.not_le_of_lt (Nat.succ_lt_succ (Nat.succ_pos _)))
    have hheld : b ∈ (TailRun.whole ⟨loans, ⟨.rollback (some b), handed, dropped⟩⟩).held :=
      List.mem_append_right _ (List.mem_singleton_self b)
    obtain ⟨hgone, hkept⟩ := h.loans.wf.purgeIfBlob_held rb hheld (task.key digest)
    exact ⟨hone, hgone, hkept⟩
  · rintro rfl
    have hsound := h.loans.sound
    have hwhole : TailRun.whole ⟨loans, ⟨.done, handed, dropped⟩⟩ = loans := by
      show (⟨loans.zone, loans.held ++ [], loans.frees ++ []⟩ : Loans) = loans
      rw [List.append_nil, List.append_nil]
    rw [hwhole] at hsound
    exact ⟨hledger.symm, hsound⟩

end

/-- **The rollback of a store is exact.**  A store tail runs on a fresh zone among any events of
other requests: stores under the same key, evictions, reuse of freed blocks, reads, releases and
frees, in any order and at any time, with any slab answers.  After every such run: the rollback
removes the node exactly when it still carries the very body that this tail stored, and then this
node alone; the reference that the store handed out is dropped once on every way to the end, which
comes after seven own steps at most; and no body is given back that a node or a request uses. -/
theorem marker_rollback_exact (digest : Bytes → KeyHash) (crc : KeyHash → UInt32) (rb : Rbtree)
    (task : StoreTask) (mem : Shm.Addr → Shm.Node) (blob : BlobId → Shm.Blob)
    (answers : ℕ → Option Shm.Addr) (sketch : Shm.Sketch) (admission : Bool) (breakerState : ℕ)
    (run : List TailEvent) :
    let s := Run.after (TailRun.step digest crc rb task)
      (TailRun.start (Shm.freshZone mem blob answers sketch admission breakerState)) run
    s.Exact digest crc rb task ∧ (7 ≤ run.countP TailEvent.isSelf → s.tail.pc = .done) := by
  have hstart := TailRun.Ok.start (Shm.Wf.freshZone mem blob answers sketch admission breakerState)
  have hok := Run.after_invariant (P := TailRun.Ok)
    (fun s e h => h.step digest crc rb task e) hstart run
  refine ⟨hok.exact digest crc rb task, fun hcount => ?_⟩
  have hrank := TailRun.rank_after digest crc rb task
    (TailRun.start (Shm.freshZone mem blob answers sketch admission breakerState)) run
  have hleft : (TailRun.start
      (Shm.freshZone mem blob answers sketch admission breakerState)).tail.pc.rank -
      run.countP TailEvent.isSelf = 0 := Nat.sub_eq_zero_of_le hcount
  rw [hleft, Nat.le_zero] at hrank
  generalize (Run.after (TailRun.step digest crc rb task) (TailRun.start
    (Shm.freshZone mem blob answers sketch admission breakerState)) run).tail.pc = pc at hrank ⊢
  cases pc with
  | done => rfl
  | begin | unstub | store | marker | index | rollback | release | free => cases hrank

end Http
end CacheTurbo
