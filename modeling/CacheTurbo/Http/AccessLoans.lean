/-
# The references of a request

A visit takes references on bodies in the zone: to serve them, and as snapshots for the breaker
and for an origin error.  Each has a cleanup in the request's pool, or is given back before.

What other requests do is open: any steps of their own loans, between the events of the visit
and in the middle of its passes.  Whatever they do, the references of the visit stay, each body
that is served or kept as a snapshot is one of them, and the end of the pool gives back all of
them (`references_given_back`).
-/

import CacheTurbo.Http.AccessVisit
import CacheTurbo.Http.MarkerRollback
import CacheTurbo.Shm.CoreMove

namespace CacheTurbo

/-! ## References set apart -/

namespace Shm

namespace Loans

/-- The loans of everybody. -/
def lend (mine : List BlobId) (s : Loans) : Loans := { s with held := mine ++ s.held }

variable (rb : Rbtree) {mine : List BlobId} {s : Loans}

/-- **What others do leaves the references of the request alone.** -/
theorem Ok.others (h : (lend mine s).Ok) (e : Event) : (lend mine (s.step rb e)).Ok := by
  have hstep := h.step rb e
  cases e with
  | op now op =>
    refine hstep.perm rfl ?_ (List.Perm.refl _)
    have hswap : ((exec rb s.zone now op).2.pins ++ mine).Perm
        (mine ++ (exec rb s.zone now op).2.pins) := List.perm_append_comm
    have h' := hswap.append_right s.held
    rw [List.append_assoc, List.append_assoc] at h'
    exact h'
  | read b =>
    unfold Loans.step at hstep ⊢
    dsimp only at hstep ⊢
    by_cases hb : b ∈ s.held
    · have hall : b ∈ (lend mine s).held := List.mem_append_right mine hb
      rw [if_pos hall] at hstep
      rw [if_pos hb]
      exact hstep
    · rw [if_neg hb]
      exact h
  | release b =>
    unfold Loans.step at hstep ⊢
    dsimp only at hstep ⊢
    by_cases hb : b ∈ s.held
    · have hall : b ∈ (lend mine s).held := List.mem_append_right mine hb
      rw [if_pos hall] at hstep
      rw [if_pos hb]
      refine hstep.perm rfl (List.perm_iff_count.2 fun c => ?_) (List.Perm.refl _)
      show ((mine ++ s.held).erase b).count c = (mine ++ s.held.erase b).count c
      by_cases hc : c = b
      · subst hc
        have hpos := List.count_pos_iff.2 hb
        rw [List.count_erase_self, List.count_append, List.count_append, List.count_erase_self]
        omega
      · rw [List.count_erase_of_ne hc, List.count_append, List.count_append,
          List.count_erase_of_ne hc]
    · rw [if_neg hb]
      exact h
  | free job =>
    unfold Loans.step at hstep ⊢
    dsimp only at hstep ⊢
    by_cases hjob : job ∈ s.frees
    · have hall : job ∈ (lend mine s).frees := hjob
      rw [if_pos hall] at hstep
      rw [if_pos hjob]
      exact hstep
    · rw [if_neg hjob]
      exact h

/-- An operation of the request. -/
theorem Ok.lendOp (h : (lend mine s).Ok) (now : Time) (op : ZoneOp) :
    (lend ((exec rb s.zone now op).2.pins ++ mine)
      { s with zone := (exec rb s.zone now op).1 }).Ok := by
  have hstep := h.step rb (.op now op)
  refine hstep.perm rfl (List.Perm.of_eq ?_) (List.Perm.refl _)
  exact (List.append_assoc ..).symm

/-- A reference on the body of a resident node. -/
theorem Ok.lendAcquire (h : (lend mine s).Ok) {a : Addr} (ha : a ∈ s.zone.resident) {b : BlobId}
    (hb : (s.zone.mem a).data = some b) :
    (lend (b :: mine) { s with zone := blobAcquire s.zone b }).Ok := by
  refine ⟨h.wf.acquire ha hb, fun job hjob => ?_⟩
  rw [h.sizes job hjob]
  exact (congrArg Prod.fst (content_of_rest (rest_blobAcquire s.zone b) job.1)).symm

/-- A reference that the request gives back. -/
theorem Ok.lendRelease {b : BlobId} (h : (lend mine s).Ok) (hb : b ∈ mine) :
    (lend (mine.erase b)
      { s with
        zone := (blobReleaseDrop s.zone b).1
        frees := (blobReleaseDrop s.zone b).2.toList ++ s.frees }).Ok := by
  have hstep := h.step Rbtree.unbalanced (.release b)
  have hall : b ∈ (lend mine s).held := List.mem_append_left s.held hb
  have herase : (mine ++ s.held).erase b = mine.erase b ++ s.held :=
    List.erase_append_left s.held hb
  unfold Loans.step at hstep
  dsimp only at hstep
  rw [if_pos hall] at hstep
  rw [lend, ← herase]
  exact hstep

/-- **The loans of everybody, since the zone was `z₀`**: they keep their invariant, and no owner
has got a lease back. -/
structure Since (z₀ : Zone) (s : Loans) : Prop where
  ok : s.Ok
  owned : Owned s.zone
  moved : LeasesFollow z₀ s.zone

variable {z₀ : Zone}

/-- The same, from now on. -/
theorem Since.here (h : s.Since z₀) : s.Since s.zone := ⟨h.ok, h.owned, .refl s.zone⟩

/-- A step that leaves every core as it is. -/
theorem Since.of_view {s' : Loans} (h : s.Since z₀) (hok : s'.Ok)
    (hview : view s'.zone = view s.zone) (hseq : s.zone.ownerSeq ≤ s'.zone.ownerSeq) :
    s'.Since z₀ :=
  ⟨hok, h.owned.of_view hview, h.moved.trans (.of_view hview hseq)⟩

theorem Since.others (h : (lend mine s).Since z₀) (e : Event) :
    (lend mine (s.step rb e)).Since z₀ := by
  have hok := h.ok.others rb e
  cases e with
  | op now op =>
    exact ⟨hok, h.owned.exec rb h.ok.wf now op, h.moved.trans (h.ok.wf.follows rb h.owned now op)⟩
  | read b =>
    refine h.of_view hok ?_ (le_of_eq ?_) <;> unfold Loans.step <;> dsimp only <;> split_ifs <;> rfl
  | release b =>
    refine h.of_view hok ?_ (le_of_eq ?_) <;> unfold Loans.step <;> dsimp only <;> split_ifs <;> rfl
  | free job =>
    refine h.of_view hok ?_ (le_of_eq ?_)
    · unfold Loans.step
      dsimp only
      split_ifs
      · exact view_of_links (links_freeBlob s.zone job.1 job.2)
      · rfl
    · unfold Loans.step
      dsimp only
      split_ifs
      · exact (congrArg Prod.fst (rest_freeBlob s.zone job.1 job.2)).symm
      · rfl

theorem Since.othersRun (h : (lend mine s).Since z₀) (run : List Event) :
    (lend mine (Run.after (Loans.step rb) s run)).Since z₀ :=
  Run.after_invariant (P := fun s => (lend mine s).Since z₀) (fun _ e h => h.others rb e) h run

theorem Since.lendOp (h : (lend mine s).Since z₀) (now : Time) (op : ZoneOp) :
    (lend ((exec rb s.zone now op).2.pins ++ mine)
      { s with zone := (exec rb s.zone now op).1 }).Since z₀ :=
  ⟨h.ok.lendOp rb now op, h.owned.exec rb h.ok.wf now op,
    h.moved.trans (h.ok.wf.follows rb h.owned now op)⟩

theorem Since.lendAcquire (h : (lend mine s).Since z₀) {a : Addr} (ha : a ∈ s.zone.resident)
    {b : BlobId} (hb : (s.zone.mem a).data = some b) :
    (lend (b :: mine) { s with zone := blobAcquire s.zone b }).Since z₀ :=
  h.of_view (h.ok.lendAcquire ha hb) rfl le_rfl

theorem Since.lendRelease {b : BlobId} (h : (lend mine s).Since z₀) (hb : b ∈ mine) :
    (lend (mine.erase b)
      { s with
        zone := (blobReleaseDrop s.zone b).1
        frees := (blobReleaseDrop s.zone b).2.toList ++ s.frees }).Since z₀ :=
  h.of_view (h.ok.lendRelease hb) rfl le_rfl

end Loans

end Shm

/-! ## A pass and its references -/

namespace Http
namespace Access

open Bytes Blob
open Shm (Zone Rbtree BlobId L1Req L1Verdict Loans ZoneOp)

/-- A body of the zone. -/
def Body.zoneBody : Body → Option BlobId
  | .zone _ b => some b
  | .l2 _ _ => none

/-- The bodies of the zone that a context refers to. -/
def Ctx.zoneSnaps (c : Ctx) : List BlobId :=
  (c.brkSnap.bind Body.zoneBody).toList ++ (c.sieSnap.bind Body.zoneBody).toList

/-- The body of the zone that the end of a pass gives to the client. -/
def End.zoneBody : End → Option BlobId
  | .served body _ => body.bind Body.zoneBody
  | .origin _ | .parked _ | .gatewayTimeout | .unavailable | .error => none

/-- **The references of a pass are in order**: the loans of everybody keep their invariant, and
the snapshots of the context are among the references of the request. -/
structure Lent (z₀ : Zone) (p : Pass) : Prop where
  ok : (Loans.lend p.pins p.others).Since z₀
  snaps : p.ctx.zoneSnaps.Subperm p.pins

/-- Such a pass may end; what it serves is one of its references. -/
structure StepLent (z₀ : Zone) (s : Step) : Prop where
  lent : Lent z₀ s.1
  served : ∀ e ∈ s.2, ∀ b ∈ e.zoneBody, b ∈ s.1.pins

variable {z₀ : Zone}

theorem Lent.here {p : Pass} (h : Lent z₀ p) : Lent p.zone p := ⟨h.ok.here, h.snaps⟩

theorem Lent.goesOn {p : Pass} (h : Lent z₀ p) : StepLent z₀ (p, none) := ⟨h, nofun⟩

theorem Lent.ends {p : Pass} (h : Lent z₀ p) {e : End} (he : e.zoneBody = none) :
    StepLent z₀ (p, some e) := by
  refine ⟨h, fun e' he' b hb => ?_⟩
  obtain rfl := Option.some.inj (Option.mem_def.1 he')
  rw [he] at hb
  cases hb

theorem StepLent.andThen {s : Step} (h : StepLent z₀ s) {next : Pass → Step}
    (hnext : ∀ p, Lent z₀ p → StepLent z₀ (next p)) : StepLent z₀ (s.andThen next) := by
  obtain ⟨p, e⟩ := s
  cases e with
  | none => exact hnext p h.lent
  | some e => exact h

/-- The snapshots of the context stay. -/
theorem Lent.setCtx {p : Pass} (h : Lent z₀ p) (f : Ctx → Ctx)
    (hsnaps : (f p.ctx).zoneSnaps = p.ctx.zoneSnaps) : Lent z₀ (p.setCtx f) :=
  ⟨h.ok, by rw [Pass.setCtx, hsnaps]; exact h.snaps⟩

theorem Lent.did {p : Pass} (h : Lent z₀ p) (d : Deed) : Lent z₀ (p.did d) := ⟨h.ok, h.snaps⟩

theorem Lent.grant {p : Pass} (h : Lent z₀ p) (answer : Shm.ClaimAnswer) :
    Lent z₀ (p.grant answer) :=
  ⟨h.ok, h.snaps⟩

/-- A reference is given back that no snapshot needs. -/
theorem Lent.release {p : Pass} (hok : (Loans.lend p.pins p.others).Since z₀) {b : BlobId}
    {bs : List BlobId} (hpins : p.pins = b :: bs) (hsnaps : p.ctx.zoneSnaps.Subperm bs) :
    Lent z₀ (p.release b) := by
  have hmem : b ∈ p.pins := by
    rw [hpins]
    exact List.mem_cons_self
  have herase : p.pins.erase b = bs := by rw [hpins, List.erase_cons_head]
  exact ⟨hok.lendRelease hmem, by rw [Pass.release, herase]; exact hsnaps⟩

theorem pinWritten_unwanted (t : Zone × Rc × Option Shm.Addr) :
    (Shm.pinWritten false t).2.2 = none := by
  obtain ⟨z, rc, out⟩ := t
  cases rc <;> cases out <;> rfl

/-- A store that asks for no reference. -/
theorem store_unwanted (rb : Rbtree) (z : Zone) (keyHash : KeyHash) (hash : UInt32) (now : Time)
    (data : Bytes) (freshTtl staleTtl : Time) :
    (Shm.exec rb z now (.store keyHash hash data freshTtl staleTtl false)).2.pins = [] := by
  unfold Shm.exec Shm.store
  dsimp only
  rw [Shm.Answer.pins, pinWritten_unwanted, Option.toList_none]

/-- A promotion, or a store, that asks for no reference. -/
theorem storeIf_unwanted (rb : Rbtree) (z : Zone) (keyHash : KeyHash) (hash : UInt32) (now : Time)
    (data : Bytes) (freshTtl staleTtl : Time) (predicate : Shm.StoreIf) :
    (Shm.exec rb z now (.storeIf keyHash hash data freshTtl staleTtl predicate false)).2.pins =
      [] := by
  unfold Shm.exec Shm.storeIf
  dsimp only
  split_ifs
  · rfl
  · rw [Shm.Answer.pins, pinWritten_unwanted, Option.toList_none]

section Phases

variable (rb : Rbtree) (digest : Bytes → KeyHash) (crc : KeyHash → UInt32) (conf : Conf)
  (r : Request) (base : Bytes) (env : Env)

theorem Lent.meanwhile {p : Pass} (h : Lent z₀ p) (gap : Gap) : Lent z₀ (p.meanwhile rb env gap) :=
  ⟨h.ok.othersRun rb (env.others gap), h.snaps⟩

/-- An operation of the zone, and the references it hands out. -/
theorem Lent.op {p : Pass} (h : Lent z₀ p) (now : Time) (op : ZoneOp) :
    Lent z₀ ((p.setZone (Shm.exec rb p.zone now op).1).pin (Shm.exec rb p.zone now op).2.pins) :=
  ⟨h.ok.lendOp rb now op, h.snaps.trans (List.sublist_append_right _ _).subperm⟩

/-- An operation of the zone that hands out nothing. -/
theorem Lent.setZone {p : Pass} (h : Lent z₀ p) (now : Time) (op : ZoneOp)
    (hpins : (Shm.exec rb p.zone now op).2.pins = []) :
    Lent z₀ (p.setZone (Shm.exec rb p.zone now op).1) := by
  have hop := h.op rb now op
  rw [hpins] at hop
  exact hop

/-! ## Serving -/

/-- **A body that is served is held**: by the reference that is handed over, or by another. -/
theorem lent_serve {p : Pass} (bs : List BlobId) (hok : (Loans.lend p.pins p.others).Since z₀)
    {ref : Option BlobId} {body : Option Body} {stale : Bool} {reason : ServeReason}
    (hpins : p.pins = ref.toList ++ bs) (hsnaps : p.ctx.zoneSnaps.Subperm bs)
    (hbody : ∀ b ∈ body.bind Body.zoneBody, b ∈ p.pins) :
    StepLent z₀ (serve r env ref body stale reason p) := by
  have hlent : Lent z₀ p := by
    refine ⟨hok, hsnaps.trans ?_⟩
    rw [hpins]
    exact (List.sublist_append_right _ _).subperm
  have hunref : Lent z₀ (p.unref ref) := by
    cases ref with
    | some b => exact Lent.release hok hpins hsnaps
    | none => exact hlent
  unfold serve
  dsimp only
  split
  · refine ⟨hlent, fun e he b hb => ?_⟩
    obtain rfl := Option.some.inj (Option.mem_def.1 he)
    exact hbody b hb
  · exact hunref.ends rfl
  · refine Lent.ends ?_ rfl
    split_ifs
    · exact hlent
    · exact hunref

/-- A body that is among the references already. -/
theorem Lent.serve {p : Pass} (h : Lent z₀ p) {body : Option Body} {stale : Bool}
    {reason : ServeReason} (hbody : ∀ b ∈ body.bind Body.zoneBody, b ∈ p.pins) :
    StepLent z₀ (Access.serve r env none body stale reason p) :=
  lent_serve r env p.pins h.ok rfl h.snaps hbody

/-- A snapshot of the context. -/
theorem Lent.serveSnap {p : Pass} (h : Lent z₀ p) {body : Option Body} {stale : Bool}
    {reason : ServeReason} (hbody : ∀ b ∈ body.bind Body.zoneBody, b ∈ p.ctx.zoneSnaps) :
    StepLent z₀ (Access.serve r env none body stale reason p) :=
  h.serve r env fun b hb => h.snaps.subset (hbody b hb)

/-! ## The first level -/

/-- What is armed is among the references that were taken. -/
theorem zoneSnaps_armL1 (q : L1Req) (armed : List BlobId) (c : Ctx) :
    (armL1 q armed c).zoneSnaps.Subperm (armed ++ c.zoneSnaps) := by
  have hbrk : ∀ o : Option BlobId,
      (o.map fun b => Body.zone c.keyHash b).bind Body.zoneBody = o := by
    intro o
    cases o <;> rfl
  unfold armL1 Ctx.zoneSnaps
  dsimp only
  match armed with
  | [] =>
    cases q.brkArm
    · exact List.Subperm.refl _
    · exact List.Subperm.refl _
  | [x] =>
    cases q.brkArm
    · refine List.subperm_ext_iff.2 fun b _ => ?_
      simp [Body.zoneBody, List.count_append, List.count_cons]
    · refine List.subperm_ext_iff.2 fun b _ => ?_
      simp [Body.zoneBody, List.count_append, List.count_cons]
  | x :: y :: l =>
    have hlast : (x :: y :: l).getLast? = some ((y :: l).getLast (List.cons_ne_nil y l)) := by
      rw [List.getLast?_cons_cons, List.getLast?_eq_some_getLast]
    have hmem : (y :: l).getLast (List.cons_ne_nil y l) ∈ y :: l := List.getLast_mem _
    rw [hlast]
    generalize (y :: l).getLast (List.cons_ne_nil y l) = z at hmem
    cases q.brkArm
    · refine List.subperm_ext_iff.2 fun b _ => ?_
      simp [Body.zoneBody, List.count_append, List.count_cons]
      omega
    · refine List.subperm_ext_iff.2 fun b _ => ?_
      have hcount : [z].count b ≤ (y :: l).count b := (List.singleton_subperm_iff.2 hmem).count_le b
      simp [Body.zoneBody, List.count_append, List.count_cons] at hcount ⊢
      omega

theorem lent_lock {p : Pass} (h : Lent z₀ p) : Lent z₀ (lock conf env p).1 := by
  unfold lock
  split_ifs
  · exact h.setCtx ({ · with lockOwnerRand := env.lockRand }) rfl
  · exact h

/-- The verdict of a lookup, with the references that it has taken. -/
theorem lent_l1Answer (q : L1Req) (verdict : L1Verdict) {p : Pass}
    (hok : (Loans.lend (verdict.pins ++ p.pins) p.others).Since z₀)
    (hsnaps : p.ctx.zoneSnaps.Subperm p.pins) :
    StepLent z₀ (l1Answer conf r env q verdict p) := by
  have hmore : ∀ bs : List BlobId, p.ctx.zoneSnaps.Subperm (bs ++ p.pins) := fun bs =>
    hsnaps.trans (List.sublist_append_right _ _).subperm
  have hzone : ∀ (k : KeyHash) (o : Option BlobId) (b : BlobId),
      b ∈ (o.map fun b => Body.zone k b).bind Body.zoneBody → b ∈ o.toList ++ p.pins := by
    intro k o b hb
    cases o with
    | none => cases hb
    | some c =>
      obtain rfl : c = b := Option.some.inj hb
      exact List.mem_cons_self
  unfold l1Answer
  cases verdict with
  | miss => exact Lent.goesOn ⟨hok, hsnaps⟩
  | error => exact Lent.ends ⟨hok, hsnaps⟩ rfl
  | regenerate => exact Lent.ends ⟨hok, hsnaps⟩ rfl
  | expired armed =>
    exact Lent.goesOn ⟨hok, (zoneSnaps_armL1 q armed _).trans
      ((List.subperm_append_left armed).2 hsnaps)⟩
  | hit body => exact lent_serve r env p.pins hok rfl hsnaps (hzone _ body)
  | stale body =>
    dsimp only
    split_ifs
    · exact Lent.serve r env ⟨hok, hmore _⟩ (hzone _ body)
    · exact lent_serve r env p.pins hok rfl hsnaps (hzone _ body)
  | refresh body =>
    have hpinned : Lent z₀ (p.pin body.toList) := ⟨hok, hmore _⟩
    have hl := lent_lock conf env hpinned
    have hpins : (lock conf env (p.pin body.toList)).1.pins = body.toList ++ p.pins := by
      unfold lock
      split_ifs
      · rfl
      · rfl
    rcases he : lock conf env (p.pin body.toList) with ⟨t, sent⟩
    rw [he] at hl hpins
    dsimp only
    rw [he]
    cases sent with
    | true => exact hl.ends rfl
    | false =>
      dsimp only
      split_ifs
      · refine hl.serve r env fun b hb => ?_
        rw [hpins]
        exact hzone _ body b hb
      · exact hl.ends rfl

theorem lent_l1 {p : Pass} (h : Lent z₀ p) : StepLent z₀ (l1 rb digest crc conf r base env p) := by
  unfold l1 l1Lookup
  dsimp only
  set q : Pass := { p with
    ctx := resolve digest crc conf r base env p.zone p.ctx
    hash := crc (resolve digest crc conf r base env p.zone p.ctx).keyHash }.meanwhile rb env
      .lookup with hq
  have hlent : Lent z₀ q := ⟨h.ok.othersRun rb (env.others .lookup), h.snaps⟩
  exact lent_l1Answer conf r env _ _
    (hlent.ok.lendOp rb env.now (.accessL1 q.ctx.keyHash q.hash (l1Req conf env q.ctx)))
    hlent.snaps

/-! ## The second level -/

theorem lent_l2MarkerConsume {p : Pass} (h : Lent z₀ p) :
    Lent z₀ (l2MarkerConsume rb digest crc conf r base env p) := by
  have hresolve : ∀ bits gen remFresh remStale,
      Lent z₀ (l2MarkerResolve rb digest crc r base env p bits gen remFresh remStale) := by
    intro bits gen remFresh remStale
    unfold l2MarkerResolve
    dsimp only
    rw [markerStoreKey_exec]
    exact ((h.setZone rb env.now (.storeMarker _ _ _ _ _) rfl).setCtx _ rfl).did _
  have hread : Lent z₀ (l2MarkerRead rb digest crc conf r base env p) := by
    unfold l2MarkerRead
    dsimp only
    split
    · split_ifs
      · exact hresolve _ _ _ _
      · exact h
    · split_ifs
      · exact ((h.setZone rb env.now (.purgeKey (markerHash digest base)) rfl).setCtx _ rfl).did _
      · exact (h.setZone rb env.now (.l2NegSet (markerHash digest base)
          (crc (markerHash digest base)) conf.l2NegativeTtl) rfl).did _
      · exact h
  unfold l2MarkerConsume
  dsimp only
  split_ifs
  · exact h
  · exact (hread.setCtx _ rfl).setCtx _ rfl
  · exact h.setCtx _ rfl

theorem lent_l2MarkerGet {p : Pass} (h : Lent z₀ p) :
    StepLent z₀ (l2MarkerGet digest crc conf base env p) := by
  have hchecked : Lent z₀ (p.setZone (if (!p.ctx.markerRevalidate &&
      decide (conf.l2NegativeTtl > 0)) = true then
        Shm.l2NegCheck p.zone (markerHash digest base) (crc (markerHash digest base)) env.now
      else (p.zone, .ok)).1) := by
    split_ifs
    · exact h.setZone Rbtree.unbalanced env.now (.l2NegCheck (markerHash digest base)
        (crc (markerHash digest base))) rfl
    · exact h
  unfold l2MarkerGet
  dsimp only
  generalize (if (!p.ctx.markerRevalidate && decide (conf.l2NegativeTtl > 0)) = true then
    Shm.l2NegCheck p.zone (markerHash digest base) (crc (markerHash digest base)) env.now
    else (p.zone, .ok)) = checked at hchecked ⊢
  split_ifs
  · exact h.goesOn
  · exact Lent.goesOn (Lent.did (hchecked.setCtx _ rfl) _)
  · exact Lent.ends (Lent.did (hchecked.setCtx _ rfl) _) rfl
  · exact Lent.goesOn (hchecked.setCtx _ rfl)

theorem lent_l2NegMemo {p : Pass} (h : Lent z₀ p) : Lent z₀ (l2NegMemo crc conf env p) := by
  have hchecked := h.setZone Rbtree.unbalanced env.now
    (.l2NegCheck p.ctx.keyHash (crc p.ctx.keyHash)) rfl
  unfold l2NegMemo
  dsimp only
  split_ifs
  · exact Lent.did (hchecked.setCtx _ rfl) _
  · exact hchecked
  · exact h

theorem lent_l2Get {p : Pass} (h : Lent z₀ p) : StepLent z₀ (l2Get conf env p) := by
  unfold l2Get
  split_ifs
  · exact Lent.goesOn (h.setCtx _ rfl)
  · exact (h.did _).ends rfl
  · exact h.goesOn

/-- A snapshot from the second level takes the place of one of the zone. -/
theorem Lent.armL2 {p : Pass} (h : Lent z₀ p) (brk snap : Bool) (keyHash : KeyHash) (blob : Bytes) :
    Lent z₀ (p.setCtx (Access.armL2 brk snap (.l2 keyHash blob))) := by
  refine ⟨h.ok, List.Subperm.trans ?_ h.snaps⟩
  unfold Ctx.zoneSnaps Access.armL2 Pass.setCtx
  dsimp only
  cases brk
  · cases snap
    · exact List.Subperm.refl _
    · have hleft := (List.sublist_append_left (p.ctx.brkSnap.bind Body.zoneBody).toList
        (p.ctx.sieSnap.bind Body.zoneBody).toList).subperm
      simpa [Body.zoneBody] using hleft
  · cases snap
    · exact (List.sublist_append_right _ _).subperm
    · exact List.nil_subperm

theorem lent_l2Reply {p : Pass} (h : Lent z₀ p) : StepLent z₀ (l2Reply rb crc conf r env p) := by
  unfold l2Reply
  split_ifs
  · split
    · exact h.goesOn
    · split
      · exact h.goesOn
      · unfold l2ExpiredArm
        dsimp only
        split_ifs
        · exact Lent.goesOn (Lent.did (h.armL2 _ _ _ _) _)
        · exact Lent.goesOn (h.armL2 _ _ _ _)
      · exact Lent.goesOn (h.setCtx _ rfl)
      · rename_i blob _ _ remFresh remStale _
        have hstored := h.setZone rb env.now (.storeIf p.ctx.keyHash (crc p.ctx.keyHash) blob
          remFresh remStale .newer false) (storeIf_unwanted rb _ _ _ _ _ _ _ _)
        exact Lent.serve r env (hstored.did _) nofun
  · exact h.goesOn

theorem lent_l2 {p : Pass} (h : Lent z₀ p) :
    StepLent z₀ (l2 rb digest crc conf r base env p) :=
  (lent_l2MarkerGet digest crc conf base env ((lent_l2MarkerConsume rb digest crc conf r base env
    (h.meanwhile rb env _)).meanwhile rb env _)).andThen fun _ hq =>
      (lent_l2Get conf env (lent_l2NegMemo crc conf env (hq.meanwhile rb env _))).andThen
        fun _ ht => lent_l2Reply rb crc conf r env (ht.meanwhile rb env _)

theorem lent_l2MissAccount {p : Pass} (h : Lent z₀ p) : Lent z₀ (l2MissAccount rb conf env p) := by
  have hcounted := h.setCtx ({ · with l2MissCounted := true }) rfl
  unfold l2MissAccount
  dsimp only
  split_ifs
  · exact (hcounted.setZone rb env.now (.l2NegSet _ _ _) rfl).did _
  · exact hcounted
  · exact h

/-! ## The gates -/

/-- The snapshot of the breaker. -/
theorem mem_zoneSnaps_brk {c : Ctx} {b : BlobId} (hb : b ∈ c.brkSnap.bind Body.zoneBody) :
    b ∈ c.zoneSnaps :=
  List.mem_append_left _ (Option.mem_toList.2 hb)

/-- The snapshot for an origin error. -/
theorem mem_zoneSnaps_sie {c : Ctx} {b : BlobId} (hb : b ∈ c.sieSnap.bind Body.zoneBody) :
    b ∈ c.zoneSnaps :=
  List.mem_append_right _ (Option.mem_toList.2 hb)

theorem lent_onlyIfCached {p : Pass} (h : Lent z₀ p) : StepLent z₀ (onlyIfCached conf r env p) := by
  unfold onlyIfCached
  split_ifs
  · exact h.serveSnap r env fun b hb => mem_zoneSnaps_brk hb
  · exact h.ends rfl
  · exact h.goesOn

theorem lent_breakerConsult {p : Pass} (h : Lent z₀ p) : Lent z₀ (breakerConsult env p).1 := by
  unfold breakerConsult
  split
  · exact h
  · have hwritten := h.setZone Rbtree.unbalanced env.now (.breakerWrite env.brkWord) rfl
    dsimp only
    exact hwritten.setCtx _ rfl

/-- **The breaker's snapshot is given back once nothing can use it.** -/
theorem lent_brkRefDrop {p : Pass} (h : Lent z₀ p) : Lent z₀ (brkRefDrop p) := by
  unfold brkRefDrop
  cases hsnap : p.ctx.brkSnap with
  | none =>
    dsimp only
    refine ⟨h.ok, List.Subperm.trans (List.sublist_append_right _ _).subperm h.snaps⟩
  | some body =>
    cases body with
    | l2 k blob =>
      dsimp only
      refine ⟨h.ok, List.Subperm.trans (List.sublist_append_right _ _).subperm h.snaps⟩
    | zone k b =>
      dsimp only
      have hsnaps : p.ctx.zoneSnaps = b :: (p.ctx.sieSnap.bind Body.zoneBody).toList := by
        rw [Ctx.zoneSnaps, hsnap]
        rfl
      have hmem : b ∈ p.pins := h.snaps.subset (by rw [hsnaps]; exact List.mem_cons_self)
      refine ⟨h.ok.lendRelease hmem, ?_⟩
      have herase := h.snaps.erase b
      rw [hsnaps, List.erase_cons_head] at herase
      exact herase

theorem lent_breakerGate {p : Pass} (h : Lent z₀ p) : StepLent z₀ (breakerGate conf r env p) := by
  have hconsult := lent_breakerConsult env h
  unfold breakerGate
  split_ifs
  · rcases hc : breakerConsult env p with ⟨q, action⟩
    rw [hc] at hconsult
    cases action with
    | probe => exact (lent_brkRefDrop hconsult).ends rfl
    | pass => exact (lent_brkRefDrop hconsult).goesOn
    | serve => exact hconsult.serveSnap r env fun b hb => mem_zoneSnaps_brk hb
    | fail => exact hconsult.ends rfl
  · exact h.goesOn

theorem lent_minUses {p : Pass} (h : Lent z₀ p) : StepLent z₀ (minUses rb conf env p) := by
  have hcounted := h.setZone rb env.now
    (.countMiss p.ctx.keyHash p.hash conf.minUses conf.minUsesWindow) rfl
  unfold minUses
  dsimp only
  split_ifs
  · exact Lent.ends (hcounted.setCtx _ rfl) rfl
  · exact Lent.goesOn (hcounted.setCtx _ rfl)
  · exact h.goesOn

/-! ## The cold miss -/

theorem lent_coldMarkWinner {p : Pass} (h : Lent z₀ p) (owner : ℕ) :
    Lent z₀ (coldMarkWinner env owner p) := by
  unfold coldMarkWinner
  split_ifs
  · exact h
  · exact h.setCtx _ rfl

theorem lent_coldWait {p : Pass} (h : Lent z₀ p) : StepLent z₀ (coldWait r env p) := by
  unfold coldWait
  dsimp only
  have hwaits : ∀ w, Lent z₀ (p.setCtx ({ · with waiting := w })) := fun w => h.setCtx _ rfl
  split_ifs
  · exact Lent.ends (Lent.setCtx (hwaits true) _ rfl) rfl
  · split
    · rename_i snap hsnap
      refine Lent.serveSnap r env (Lent.setCtx (hwaits true) _ rfl) fun b hb =>
        mem_zoneSnaps_sie ?_
      rw [← hsnap] at hb
      exact hb
    · exact Lent.ends (Lent.setCtx (hwaits true) _ rfl) rfl
  · exact Lent.ends (Lent.setCtx (hwaits true) _ rfl) rfl
  · exact Lent.ends (Lent.setCtx (Lent.setCtx (hwaits true) _ rfl) _ rfl) rfl

theorem lent_coldResumeLocked {p : Pass} (h : Lent z₀ p) : StepLent z₀ (coldResumeLocked r env p) := by
  unfold coldResumeLocked
  split_ifs
  · exact (lent_coldMarkWinner env h _).ends rfl
  · exact lent_coldWait r env h

theorem lent_coldClaimed {p : Pass} (h : Lent z₀ p) (answer : Shm.ClaimAnswer) :
    StepLent z₀ (coldClaimed conf r env answer p) := by
  unfold coldClaimed
  split_ifs
  · split
    · rename_i q hq
      obtain ⟨t, -, rfl⟩ := Option.map_eq_some_iff.1 hq
      have hadopted : Lent z₀ { p.setCtx ({ · with
          coldWinner := true, coldOwner := t.1, coldCleanup := true }) with former := t.2 } :=
        ⟨h.ok, h.snaps⟩
      exact hadopted.ends rfl
    · exact lent_coldWait r env h
  · have hl := lent_lock conf env h
    rcases he : lock conf env p with ⟨q, sent⟩
    rw [he] at hl
    cases sent with
    | true => exact hl.ends rfl
    | false => exact (lent_coldMarkWinner env hl _).ends rfl

/-- What is found fresh when the zone is looked up again is the body of a resident node. -/
theorem freshBody_resident {z : Zone} {k : KeyHash} {b : BlobId} {held pending : List BlobId}
    (h : Shm.Wf held pending [] [] [] z) (hb : freshBody env z k = some b) :
    ∃ a ∈ z.resident, (z.mem a).data = some b := by
  unfold freshBody at hb
  cases hl : Shm.lookup z k with
  | none =>
    rw [hl] at hb
    cases hb
  | some a =>
    rw [hl] at hb
    dsimp only at hb
    split_ifs at hb
    exact ⟨a, (h.queues.lookup_resident hl).1, hb⟩

theorem lent_coldRaced {p : Pass} (h : Lent z₀ p) : StepLent z₀ (coldRaced r env p) := by
  unfold coldRaced
  split_ifs
  · exact h.ends rfl
  · split
    · exact h.ends rfl
    · rename_i b hb
      obtain ⟨a, ha, hdata⟩ := freshBody_resident env h.ok.ok.wf hb
      refine lent_serve r env p.pins (h.ok.lendAcquire ha hdata) rfl h.snaps
        fun c hc => ?_
      obtain rfl : b = c := Option.some.inj hc
      exact List.mem_cons_self

theorem lent_coldFresh {p : Pass} (bs : List BlobId) (hok : (Loans.lend p.pins p.others).Since z₀)
    {fresh : Option BlobId} (hpins : p.pins = fresh.toList ++ bs)
    (hsnaps : p.ctx.zoneSnaps.Subperm bs) : StepLent z₀ (coldFresh r env fresh p) := by
  unfold coldFresh
  cases fresh with
  | none => exact Lent.ends ⟨hok, by rw [hpins]; exact hsnaps⟩ rfl
  | some b =>
    dsimp only
    split_ifs
    · exact (Lent.release hok hpins hsnaps).ends rfl
    · refine lent_serve r env bs hok hpins hsnaps fun c hc => ?_
      obtain rfl : b = c := Option.some.inj hc
      rw [hpins]
      exact List.mem_cons_self

/-- A claim. -/
theorem Lent.claim {p : Pass} (h : Lent z₀ p) :
    let c := Shm.claim rb p.zone p.ctx.keyHash p.hash env.now env.l1.lockTtl
    Lent z₀ ((p.setZone c.1).grant c.2) := by
  refine (h.setZone rb env.now (.claim p.ctx.keyHash p.hash env.l1.lockTtl) ?_).grant _
  show (Shm.claim rb p.zone p.ctx.keyHash p.hash env.now env.l1.lockTtl).2.freshData.toList = []
  rw [Shm.claim_freshData]
  rfl

/-- A miss that is counted, and a claim. -/
theorem Lent.resolveMiss {p : Pass} (h : Lent z₀ p) :
    let c := Shm.resolveMiss rb p.zone p.ctx.keyHash p.hash env.now conf.minUses
      conf.minUsesWindow env.l1.lockTtl
    Lent z₀ (((p.setZone c.1).pin c.2.2.freshData.toList).grant c.2.2) :=
  (h.op rb env.now
    (.resolveMiss p.ctx.keyHash p.hash conf.minUses conf.minUsesWindow env.l1.lockTtl)).grant _

theorem lent_cold {p : Pass} (h : Lent z₀ p) : StepLent z₀ (cold rb conf r env p) := by
  have hclaim := h.claim rb env
  have hresolve := h.resolveMiss rb conf env
  unfold cold
  dsimp only
  split_ifs
  · exact h.goesOn
  · exact lent_coldResumeLocked r env h
  · exact Lent.ends (hresolve.setCtx _ rfl) rfl
  · exact lent_coldFresh r env p.pins (hresolve.ok.othersRun rb (env.others .claimed)) rfl h.snaps
  · exact lent_coldClaimed conf r env
      (Lent.meanwhile rb env (Lent.setCtx (hresolve.setCtx _ rfl) _ rfl) _) _
  · exact lent_coldRaced r env (Lent.meanwhile rb env (hclaim.setCtx _ rfl) _)
  · exact lent_coldClaimed conf r env (Lent.meanwhile rb env (hclaim.setCtx _ rfl) _) _

/-- **A whole pass.** -/
theorem lent_handler {p : Pass} (h : Lent z₀ p) :
    Lent z₀ (handler rb digest crc conf r base env p).1 ∧
      ∀ b ∈ (handler rb digest crc conf r base env p).2.zoneBody,
        b ∈ (handler rb digest crc conf r base env p).1.pins := by
  have hsteps : StepLent z₀ ((l1 rb digest crc conf r base env p).andThen fun p =>
      (l2 rb digest crc conf r base env p).andThen fun p =>
        let p := l2MissAccount rb conf env (p.meanwhile rb env .account)
        (onlyIfCached conf r env (p.meanwhile rb env .onlyIfCached)).andThen fun p =>
          (breakerGate conf r env (p.meanwhile rb env .breaker)).andThen fun p =>
            (minUses rb conf env (p.meanwhile rb env .minUses)).andThen fun p =>
              cold rb conf r env (p.meanwhile rb env .cold)) :=
    (lent_l1 rb digest crc conf r base env h).andThen fun _ h2 =>
      (lent_l2 rb digest crc conf r base env h2).andThen fun _ h3 =>
        (lent_onlyIfCached conf r env ((lent_l2MissAccount rb conf env
          (h3.meanwhile rb env _)).meanwhile rb env _)).andThen fun _ h4 =>
            (lent_breakerGate conf r env (h4.meanwhile rb env _)).andThen fun _ h5 =>
              (lent_minUses rb conf env (h5.meanwhile rb env _)).andThen fun _ h6 =>
                lent_cold rb conf r env (h6.meanwhile rb env _)
  refine ⟨hsteps.lent, fun b hb => ?_⟩
  unfold handler at hb ⊢
  dsimp only at hb ⊢
  generalize ((l1 rb digest crc conf r base env p).andThen fun p =>
    (l2 rb digest crc conf r base env p).andThen fun p => _) = s at hb hsteps ⊢
  obtain ⟨q, e⟩ := s
  cases e with
  | none => cases hb
  | some e => exact hsteps.served e rfl b hb

end Phases

/-! ## A visit -/

section Visits

variable (rb : Rbtree) (digest : Bytes → KeyHash) (crc : KeyHash → UInt32)

/-- A reply leaves the snapshots as they are. -/
theorem Lent.arrive {s : Visit} (h : Lent z₀ s.pass) {e : VisitEvent} {a : Visit × Env}
    (ha : a ∈ s.arrive e) : Lent z₀ a.1.pass := by
  cases e with
  | enter env =>
    obtain ⟨-, ha'⟩ := Option.ite_none_right_eq_some.1 (Option.mem_def.1 ha)
    obtain rfl := Option.some.inj ha'
    exact h
  | woken env =>
    obtain ⟨-, ha'⟩ := Option.ite_none_right_eq_some.1 (Option.mem_def.1 ha)
    obtain rfl := Option.some.inj ha'
    exact h
  | lockReply result env =>
    obtain ⟨-, ha'⟩ := Option.ite_none_right_eq_some.1 (Option.mem_def.1 ha)
    obtain rfl := Option.some.inj ha'
    exact ⟨h.ok, h.snaps⟩
  | reply result blob room env =>
    rw [Visit.arrive, Option.mem_def] at ha
    split at ha
    · obtain rfl := Option.some.inj ha
      exact ⟨h.ok, h.snaps⟩
    · obtain rfl := Option.some.inj ha
      exact ⟨h.ok, h.snaps⟩
    all_goals cases ha
  | other _ | unstored _ | stored _ _ _ | redirect _ | closed _ _ => cases ha

/-- The reference that a cleanup gives back. -/
def Cleanup.pin : Cleanup → Option BlobId
  | .body b => some b
  | .cold _ => none

theorem pins_cleanups (s : Visit) : s.cleanups.filterMap Cleanup.pin = s.pins := by
  have hcold : ∀ fs : List Former, (fs.map Cleanup.cold).filterMap Cleanup.pin = [] := by
    intro fs
    induction fs with
    | nil => rfl
    | cons f fs ih => simp [Cleanup.pin]
  have hbody : ∀ bs : List BlobId, (bs.map Cleanup.body).filterMap Cleanup.pin = bs := by
    intro bs
    induction bs with
    | nil => rfl
    | cons b bs ih => simp [Cleanup.pin, ih]
  rw [Visit.cleanups, List.filterMap_append, hcold, hbody, List.nil_append]

/-- A cleanup gives back its reference, and leaves the others. -/
theorem lent_cleanup (now : Time) (c : Cleanup) {cs : List Cleanup} {s : Loans}
    (h : (Loans.lend ((c :: cs).filterMap Cleanup.pin) s).Since z₀) :
    (Loans.lend (cs.filterMap Cleanup.pin) (c.run rb now s)).Since z₀ := by
  cases c with
  | body b =>
    have hpins : (Cleanup.body b :: cs).filterMap Cleanup.pin = b :: cs.filterMap Cleanup.pin := rfl
    rw [hpins] at h
    have hrelease := h.lendRelease (b := b) List.mem_cons_self
    rwa [List.erase_cons_head] at hrelease
  | cold f =>
    unfold Cleanup.run
    dsimp only
    split_ifs
    · exact h.lendOp rb now (.unstub f.keyHash f.coldOwner)
    · exact h

/-- **The cleanups of a pool give back every reference.** -/
theorem lent_runCleanups (now : Time) {cs : List Cleanup} (gaps : List (List Shm.Event))
    {s : Loans} (h : (Loans.lend (cs.filterMap Cleanup.pin) s).Since z₀) :
    (Loans.lend [] (runCleanups rb now cs gaps s)).Since z₀ := by
  induction cs generalizing gaps s with
  | nil => exact h
  | cons c cs ih => exact ih gaps.tail (lent_cleanup rb now c (h.othersRun rb (gaps.head?.getD [])))

/-- An event, and the location and the request that it meets: an internal redirect changes
both. -/
structure Turn where
  conf : Conf
  r : Request
  base : Bytes
  event : VisitEvent

/-- One event. -/
def turn (s : Visit) (t : Turn) : Visit := s.step rb digest crc t.conf t.r t.base t.event

theorem turn_of_arrive {s : Visit} {t : Turn} {a : Visit × Env}
    (ha : s.arrive t.event = some a) : turn rb digest crc s t =
      a.1.leave (handler rb digest crc t.conf t.r t.base a.2 a.1.pass) := by
  unfold turn Visit.step
  rw [ha]

theorem turn_of_none {s : Visit} {t : Turn} (ha : s.arrive t.event = none) :
    turn rb digest crc s t = s.elsewhere rb t.event := by
  unfold turn Visit.step
  rw [ha]

/-- What is served from the zone is held, and its body is there. -/
def ServesHeld (s : Visit) (t : Turn) : Prop :=
  ∀ a ∈ s.arrive t.event,
    let res := handler rb digest crc t.conf t.r t.base a.2 a.1.pass
    ∀ b ∈ res.2.zoneBody, b ∈ res.1.pins ∧ b ∈ res.1.zone.slab.blobs

/-- **The invariant of a visit.** -/
structure Visit.InOrder (z₀ : Zone) (s : Visit) : Prop where
  lent : Lent z₀ s.pass
  closed : s.place = .closed → s.pins = []

/-- A store asks for no reference. -/
theorem StoreCall.run_lent (call : StoreCall) (now : Time) {mine : List BlobId} {s : Loans}
    (h : (Loans.lend mine s).Since z₀) :
    (Loans.lend mine { s with zone := (call.run rb now s.zone).1 }).Since z₀ := by
  unfold StoreCall.run
  dsimp only
  split_ifs
  · have hop := h.lendOp rb now (.storeIf call.keyHash call.hash call.data call.freshTtl
      call.staleTtl .absentOrDead false)
    rw [storeIf_unwanted] at hop
    exact hop
  · have hop := h.lendOp rb now (.store call.keyHash call.hash call.data call.freshTtl
      call.staleTtl false)
    rw [store_unwanted] at hop
    exact hop

/-- The end of a lease hands out nothing. -/
theorem Lent.unstub {s : Visit} (h : Lent z₀ s.pass) (now : Time) :
    Lent z₀ (s.unstub rb now).pass :=
  ⟨h.ok.lendOp rb now (.unstub s.ctx.keyHash s.ctx.coldOwner), h.snaps⟩

theorem Lent.unstored {s : Visit} (h : Lent z₀ s.pass) (now : Time) :
    Lent z₀ (s.unstored rb now).pass := by
  unfold Visit.unstored
  split_ifs
  · exact ⟨(h.unstub rb now).ok, h.snaps⟩
  · exact h

theorem Lent.stored {s : Visit} (h : Lent z₀ s.pass) (now : Time) (others : List Shm.Event)
    (call : StoreCall) : Lent z₀ (s.stored rb now others call).pass := by
  unfold Visit.stored
  dsimp only
  split_ifs
  · exact ⟨call.run_lent rb now ((h.unstub rb now).ok.othersRun rb others), h.snaps⟩
  · exact ⟨call.run_lent rb now (h.ok.othersRun rb others), h.snaps⟩

/-- The cleanups of the pool give back the references of the request. -/
theorem Lent.close {s : Visit} (h : Lent z₀ s.pass) (now : Time) (gaps : List (List Shm.Event)) :
    Lent z₀ (s.close rb now gaps).pass := by
  refine ⟨lent_runCleanups rb now gaps ?_, List.nil_subperm⟩
  rw [pins_cleanups]
  exact h.ok

theorem Visit.InOrder.elsewhere {s : Visit} (h : s.InOrder z₀) (e : VisitEvent) :
    (s.elsewhere rb e).InOrder z₀ := by
  unfold Visit.elsewhere
  split
  · exact ⟨⟨h.lent.ok.others rb _, h.lent.snaps⟩, h.closed⟩
  · split_ifs
    · refine ⟨h.lent.unstored rb _, ?_⟩
      obtain ⟨others, coldStored, he⟩ := unstored_settle rb _ s
      exact he ▸ h.closed
    · exact h
  · split_ifs
    · refine ⟨h.lent.stored rb _ _ _, ?_⟩
      obtain ⟨others, coldStored, he⟩ := stored_settle rb _ _ _ s
      exact he ▸ h.closed
    · exact h
  · split_ifs
    · exact ⟨⟨h.lent.ok, List.nil_subperm⟩, nofun⟩
    · exact h
  · split_ifs
    · exact h
    · exact ⟨h.lent.close rb _ _, fun _ => rfl⟩
  all_goals exact h

theorem Visit.InOrder.step {s : Visit} (h : s.InOrder z₀) (t : Turn) :
    ServesHeld rb digest crc s t ∧ (turn rb digest crc s t).InOrder z₀ := by
  have hpass : ∀ a ∈ s.arrive t.event,
      Lent z₀ (handler rb digest crc t.conf t.r t.base a.2 a.1.pass).1 ∧
        ∀ b ∈ (handler rb digest crc t.conf t.r t.base a.2 a.1.pass).2.zoneBody,
          b ∈ (handler rb digest crc t.conf t.r t.base a.2 a.1.pass).1.pins := fun a ha =>
    lent_handler rb digest crc t.conf t.r t.base a.2 (h.lent.arrive ha)
  refine ⟨fun a ha b hb => ?_, ?_⟩
  · obtain ⟨hlent, hserved⟩ := hpass a ha
    have hpin := hserved b hb
    exact ⟨hpin, hlent.ok.ok.wf.heap.held_live b (List.mem_append_left _ hpin)⟩
  unfold turn Visit.step
  cases ha : s.arrive t.event with
  | some a =>
    obtain ⟨u, env⟩ := a
    obtain ⟨hlent, -⟩ := hpass (u, env) ha
    refine ⟨⟨hlent.ok, hlent.snaps⟩, fun hclosed => ?_⟩
    have hend : ∀ e : End, e.place ≠ .closed := by
      intro e
      cases e <;> exact nofun
    exact absurd hclosed (hend _)
  | none => exact h.elsewhere rb t.event

/-- A request that begins over a zone just initialised. -/
theorem inOrder_begin (mem : Shm.Addr → Shm.Node) (blob : BlobId → Shm.Blob)
    (answers : ℕ → Option Shm.Addr) (sketch : Shm.Sketch) (admission : Bool) (breakerState : ℕ)
    (onlyIfCached : Bool) :
    let start := Visit.begin
      (.fresh (Shm.freshZone mem blob answers sketch admission breakerState)) onlyIfCached
    start.InOrder start.zone :=
  ⟨⟨⟨⟨Shm.Wf.freshZone mem blob answers sketch admission breakerState, nofun⟩, nofun, .refl _⟩,
    List.nil_subperm⟩, fun _ => rfl⟩

/-- **A request gives back what it takes.**  In every run of a request, through parks, resumes
and internal redirects, with any steps of other requests between and within its passes: the
bodies and `used_bytes` are sound, and every reference of the request is counted; what it serves
from the zone, and each snapshot it keeps, is held by a reference of its own, so that it is not
freed; and once its pool is destroyed it holds nothing. -/
theorem references_given_back (mem : Shm.Addr → Shm.Node) (blob : BlobId → Shm.Blob)
    (answers : ℕ → Option Shm.Addr) (sketch : Shm.Sketch) (admission : Bool) (breakerState : ℕ)
    (onlyIfCached : Bool) (run : List Turn) :
    let start := Visit.begin
      (.fresh (Shm.freshZone mem blob answers sketch admission breakerState)) onlyIfCached
    let s := Run.after (turn rb digest crc) start run
    Run.Along (turn rb digest crc) (ServesHeld rb digest crc) start run ∧
      (Loans.lend s.pins s.others).Sound ∧ s.ctx.zoneSnaps.Subperm s.pins ∧
      (s.place = .closed → s.pins = [] ∧ s.others.Sound) := by
  intro start s
  have hstart := inOrder_begin mem blob answers sketch admission breakerState onlyIfCached
  have hs : s.InOrder start.zone := Run.after_invariant (P := Visit.InOrder start.zone)
    (fun _ t h => (h.step rb digest crc t).2) hstart run
  refine ⟨Run.along_of_invariant (C := fun _ _ => True)
    (fun _ t h _ => h.step rb digest crc t) hstart (Run.along_of_forall fun _ _ => trivial),
    hs.lent.ok.ok.sound, hs.lent.snaps, fun hclosed => ?_⟩
  have hpins := hs.closed hclosed
  have hsound := hs.lent.ok.ok.sound
  rw [show s.pass.pins = [] from hpins] at hsound
  exact ⟨hpins, hsound⟩

end Visits

end Access
end Http
end CacheTurbo
