/-
# The zone as a lossy store

To a request a zone is a map from digests to records: a body with its windows,
and whether it is a response or a marker.  `Wf.recordMove` says what an
operation can do to the record of a digest: lose it, keep it, put one there, or
move the windows of an entry.  Everything else the operations write (leases,
miss counters, queue places) does not show here.
-/

import CacheTurbo.Shm.Ops

namespace CacheTurbo
namespace Shm

/-- What is stored under a digest. -/
structure Record where
  kind : NodeKind
  body : List UInt8
  len : ℕ
  freshUntil : Time
  staleUntil : Time
  deriving DecidableEq

/-- The record of a core that has a body. -/
def Core.record (z : Zone) (c : Core) : Option Record :=
  c.data.map fun b => ⟨c.kind, (z.blob b).body, c.len, c.freshUntil, c.staleUntil⟩

/-- The record under a digest; a counter has none. -/
def record (z : Zone) (keyHash : KeyHash) : Option Record :=
  (view z keyHash).bind (Core.record z)

/-- The record that a store writes. -/
def Record.stored (kind : NodeKind) (data : List UInt8) (now freshTtl staleTtl : Time) : Record where
  kind := kind
  body := data
  len := data.length
  freshUntil := now + freshTtl
  staleUntil := if staleTtl ≠ 0 then now + staleTtl else 0

/-- The record that a 304 leaves. -/
def Record.freshened (r : Record) (now freshTtl staleTtl : Time) : Record :=
  { r with
    freshUntil := now + freshTtl
    staleUntil := if staleTtl ≠ 0 then now + staleTtl else 0 }

/-- The record that an operation would put under its digest. -/
def ZoneOp.writes (now : Time) : ZoneOp → Option Record
  | .store _ _ data freshTtl staleTtl _ => some (.stored .entry data now freshTtl staleTtl)
  | .storeIf _ _ data freshTtl staleTtl _ _ => some (.stored .entry data now freshTtl staleTtl)
  | .storeMarker _ _ data freshTtl staleTtl => some (.stored .marker data now freshTtl staleTtl)
  | _ => none

/-- An operation that reports success. -/
def Answer.ok : Answer → Prop
  | .stored rc _ => rc = .ok
  | .code rc => rc = .ok
  | _ => False

/-- **What an operation can do to the record of a digest.** -/
inductive RecordMove (now : Time) (op : ZoneOp) (answer : Answer) (z z' : Zone) (k : KeyHash) : Prop
  | lost (h : record z' k = none)
  | kept (h : record z' k = record z k)
  | written (r : Record) (hkey : op.key = some k) (hop : op.writes now = some r) (hok : answer.ok)
      (h : record z' k = some r)
  | freshened (freshTtl staleTtl : Time) (r : Record) (hop : op = .freshen k freshTtl staleTtl)
      (hok : answer.ok) (hold : record z k = some r) (hkind : r.kind = .entry)
      (h : record z' k = some (r.freshened now freshTtl staleTtl))

variable {held pending : List BlobId} {z z' : Zone}

/-- A body that a node refers to has a serial number already. -/
theorem Wf.data_lt (h : Wf held pending [] [] [] z) {k : KeyHash} {c : Core}
    (hc : view z k = some c) {b : BlobId} (hb : c.data = some b) : b < z.slab.serial := by
  unfold view at hc
  obtain ⟨a, ha, rfl⟩ := Option.map_eq_some_iff.1 hc
  exact h.heap.live_lt (h.own_live (h.queues.lookup_resident ha).1 hb)

theorem record_of_view {k : KeyHash} {c : Core} (hc : view z k = some c) {b : BlobId}
    (hb : c.data = some b) :
    record z k = some ⟨c.kind, (z.blob b).body, c.len, c.freshUntil, c.staleUntil⟩ := by
  rw [record, hc, Option.bind_some, Core.record, hb]
  rfl

/-- A record is the record of a core. -/
theorem record_some {k : KeyHash} {r : Record} (h : record z k = some r) :
    ∃ c b, view z k = some c ∧ c.data = some b ∧
      r = ⟨c.kind, (z.blob b).body, c.len, c.freshUntil, c.staleUntil⟩ := by
  obtain ⟨c, hc, hr⟩ := Option.bind_eq_some_iff.1 h
  obtain ⟨b, hb, hr⟩ := Option.map_eq_some_iff.1 hr
  exact ⟨c, b, hc, hb, hr.symm⟩

/-- The fields of a core that its record is made of. -/
def Core.stored (c : Core) : NodeKind × Option BlobId × ℕ × Time × Time :=
  (c.kind, c.data, c.len, c.freshUntil, c.staleUntil)

/-- Bodies never change, so equal cores have equal records. -/
theorem Wf.record_congr (h : Wf held pending [] [] [] z)
    (hcontent : ∀ b < z.slab.serial, (z'.blob b).content = (z.blob b).content) {k : KeyHash}
    (hview : (view z' k).map Core.stored = (view z k).map Core.stored) :
    record z' k = record z k := by
  cases hc : view z k with
  | none =>
    rw [hc, Option.map_none, Option.map_eq_none_iff] at hview
    rw [record, record, hview, hc]
    rfl
  | some c =>
    rw [hc, Option.map_some, Option.map_eq_some_iff] at hview
    obtain ⟨c', hc', heq⟩ := hview
    simp only [Core.stored, Prod.mk.injEq] at heq
    obtain ⟨hkind, hdata, hlen, hfresh, hstale⟩ := heq
    cases hd : c.data with
    | none =>
      rw [record, record, hc, hc', Option.bind_some, Option.bind_some, Core.record, Core.record,
        hdata, hd]
      rfl
    | some b =>
      have hbody : (z'.blob b).body = (z.blob b).body :=
        congrArg Prod.snd (hcontent b (h.data_lt hc hd))
      rw [record_of_view hc hd, record_of_view hc' (hdata.trans hd), hbody, hkind, hlen, hfresh,
        hstale]

/-- A digest that survives keeps its record or loses it. -/
theorem Wf.record_survives (h : Wf held pending [] [] [] z)
    (hcontent : ∀ b < z.slab.serial, (z'.blob b).content = (z.blob b).content) {k : KeyHash}
    (hs : Survives z z' k) : record z' k = none ∨ record z' k = record z k := by
  rcases hs with hn | he
  · exact Or.inl (by rw [record, hn]; rfl)
  · exact Or.inr (h.record_congr hcontent (congrArg _ he))

/-- Evictions and drops keep the records of what is left. -/
theorem Kept.record {k : KeyHash} (hk : Kept none z z') (h : Wf held pending [] [] [] z)
    (h' : Wf held pending [] [] [] z') :
    Shm.record z' k = none ∨ Shm.record z' k = Shm.record z k :=
  h.record_survives hk.content (hk.survives h.queues h'.queues k)

/-- What a storing operation leaves. -/
theorem StoreEffect.record {now freshTtl staleTtl : Time} {data : List UInt8} {kind : NodeKind}
    {k : KeyHash} {rc : Rc} {pin : Option BlobId}
    (he : StoreEffect z k now data freshTtl staleTtl kind z' rc pin)
    (h : Wf held pending [] [] [] z)
    (hcontent : ∀ b < z.slab.serial, (z'.blob b).content = (z.blob b).content) :
    (rc ≠ .ok ∧ (Shm.record z' k = none ∨ Shm.record z' k = Shm.record z k)) ∨
      rc = .ok ∧ Shm.record z' k = some (.stored kind data now freshTtl staleTtl) := by
  rcases he with ⟨hrc, -, hs⟩ | ⟨hok, b, -, hbody, hv⟩
  · exact Or.inl ⟨hrc, h.record_survives hcontent hs⟩
  · refine Or.inr ⟨hok, ?_⟩
    rw [record_of_view hv (b := b) rfl, hbody]
    rfl

/-- A counter has no record. -/
theorem record_counter {k : KeyHash} {c : Core} (hc : view z k = some c) (hd : c.data = none) :
    Shm.record z k = none := by
  rw [Shm.record, hc, Option.bind_some, Core.record, hd]
  rfl

/-! ## Leases and counts do not show -/

/-- A step that leaves what is stored as it was, or makes a counter. -/
def Unwritten (z z' : Zone) (k : KeyHash) : Prop :=
  (view z' k).map Core.stored = (view z k).map Core.stored ∨
    view z k = none ∧ ∃ c, view z' k = some c ∧ c.stored = counterCore.stored

theorem Unwritten.trans {z'' : Zone} {k : KeyHash} (h : Unwritten z z' k) (h' : Unwritten z' z'' k) :
    Unwritten z z'' k := by
  rcases h with hv | ⟨hn, c, hc, hs⟩
  · rcases h' with hv' | ⟨hn', hc'⟩
    · exact Or.inl (hv'.trans hv)
    · rw [hn', Option.map_none, eq_comm, Option.map_eq_none_iff] at hv
      exact Or.inr ⟨hv, hc'⟩
  · rcases h' with hv' | ⟨hn', -⟩
    · rw [hc, Option.map_some, Option.map_eq_some_iff] at hv'
      obtain ⟨c', hc', hs'⟩ := hv'
      exact Or.inr ⟨hn, c', hc', hs'.trans hs⟩
    · rw [hc] at hn'
      cases hn'

theorem CountEffect.unwritten {k : KeyHash} {now : Time} {minUses : ℤ} {rc : Rc}
    (h : CountEffect z k now minUses z' rc) : Unwritten z z' k := by
  rcases h with ⟨rfl, -, -⟩ | ⟨c, m, hv, -, -, hv', -⟩ | ⟨hv, -, hv'⟩ | ⟨hv, -, hv'⟩
  · exact Or.inl rfl
  · refine Or.inl ?_
    rw [hv, hv']
    rfl
  · exact Or.inl (by rw [hv, hv'])
  · exact Or.inr ⟨hv, _, hv', rfl⟩

theorem ClaimEffect.unwritten {k : KeyHash} {now lockTtl : Time} {a : ClaimAnswer}
    (h : ClaimEffect z k now lockTtl z' a) : Unwritten z z' k := by
  obtain ⟨verdict, owner, data, len⟩ := a
  cases verdict with
  | fresh => exact Or.inl (congrArg _ (congrFun h.2.1 k))
  | loser =>
    obtain ⟨-, rfl, -⟩ := h
    exact Or.inl rfl
  | winner =>
    rcases h with ⟨-, hv, hv'⟩ | ⟨-, -, -, hv'⟩
    · exact Or.inl (by rw [hv, hv'])
    · cases hv : view z k with
      | none =>
        rw [hv, Option.getD_none] at hv'
        exact Or.inr ⟨hv, _, hv', rfl⟩
      | some c =>
        rw [hv, Option.getD_some] at hv'
        refine Or.inl ?_
        rw [hv, hv']
        rfl

theorem ResolveEffect.unwritten {k : KeyHash} {now lockTtl : Time} {minUses : ℤ} {rc : Rc}
    {a : ClaimAnswer} (h : ResolveEffect z k now minUses lockTtl z' rc a) : Unwritten z z' k := by
  obtain ⟨z₁, hcount, -, ⟨-, rfl, -⟩ | ⟨-, hclaim⟩⟩ := h
  · exact hcount.unwritten
  · exact hcount.unwritten.trans hclaim.unwritten

/-- Such a step keeps the record, or there was none. -/
theorem Wf.record_unwritten (h : Wf held pending [] [] [] z)
    (hcontent : ∀ b < z.slab.serial, (z'.blob b).content = (z.blob b).content) {k : KeyHash}
    (hu : Unwritten z z' k) : Shm.record z' k = none ∨ Shm.record z' k = Shm.record z k := by
  rcases hu with hv | ⟨-, c, hc, hs⟩
  · exact Or.inr (h.record_congr hcontent hv)
  · exact Or.inl (record_counter hc (congrArg (fun s => s.2.1) hs))

variable (rb : Rbtree)

/-- A store that reports success has put its record under its digest. -/
theorem Wf.record_written (h : Wf held pending [] [] [] z) {now : Time} {op : ZoneOp} {k : KeyHash}
    {r : Record} (hkey : op.key = some k) (hop : op.writes now = some r)
    (hok : (Shm.exec rb z now op).2.ok) : record (Shm.exec rb z now op).1 k = some r := by
  have hstored : ∀ {kind : NodeKind} {data : List UInt8} {freshTtl staleTtl : Time} {z' : Zone}
      {rc : Rc} {pin : Option BlobId},
      StoreEffect z k now data freshTtl staleTtl kind z' rc pin → Framed k z z' → rc = .ok →
        record z' k = some (.stored kind data now freshTtl staleTtl) := by
    intro kind data freshTtl staleTtl z' rc pin he hfr hrc
    rcases he.record h hfr.content with ⟨hbad, -⟩ | ⟨-, hr⟩
    · exact absurd hrc hbad
    · exact hr
  cases op with
  | store k' hash data freshTtl staleTtl wanted =>
    obtain rfl := Option.some.inj hkey
    obtain rfl := Option.some.inj hop
    obtain ⟨-, hfr, he⟩ := h.store rb k' hash now data freshTtl staleTtl wanted
    exact hstored he hfr hok
  | storeIf k' hash data freshTtl staleTtl predicate wanted =>
    obtain rfl := Option.some.inj hkey
    obtain rfl := Option.some.inj hop
    obtain ⟨-, hfr, he⟩ := h.storeIf rb k' hash now data freshTtl staleTtl predicate wanted
    exact hstored he hfr hok
  | storeMarker k' hash data freshTtl staleTtl =>
    obtain rfl := Option.some.inj hkey
    obtain rfl := Option.some.inj hop
    obtain ⟨-, hfr, he⟩ := h.storeMarker rb k' hash now data freshTtl staleTtl
    exact hstored he hfr hok
  | _ => cases hop

/-- **Every operation moves the record of every digest in one of these ways.** -/
theorem Wf.recordMove (h : Wf held pending [] [] [] z) (now : Time) (op : ZoneOp) (k : KeyHash) :
    RecordMove now op (Shm.exec rb z now op).2 z (Shm.exec rb z now op).1 k := by
  obtain ⟨-, hframe⟩ := h.exec rb now op
  have hmove : ∀ {answer : Answer} {z' : Zone}, (record z' k = none ∨ record z' k = record z k) →
      RecordMove now op answer z z' k := by
    rintro answer z' (hn | he)
    · exact .lost hn
    · exact .kept he
  by_cases hkey : op.key = some k
  swap
  · exact hmove (h.record_survives hframe.content (hframe.other k hkey))
  -- the operation works on this digest
  have hsame : Unwritten z (Shm.exec rb z now op).1 k →
      RecordMove now op (Shm.exec rb z now op).2 z (Shm.exec rb z now op).1 k := fun hu =>
    hmove (h.record_unwritten hframe.content hu)
  have hquiet : view (Shm.exec rb z now op).1 k = view z k →
      RecordMove now op (Shm.exec rb z now op).2 z (Shm.exec rb z now op).1 k := fun hv =>
    hsame (Or.inl (congrArg _ hv))
  cases op with
  | store k' hash data freshTtl staleTtl wanted =>
    obtain rfl := Option.some.inj hkey
    obtain ⟨-, hfr, he⟩ := h.store rb k' hash now data freshTtl staleTtl wanted
    rcases he.record h hfr.content with ⟨-, hr⟩ | ⟨hok, hr⟩
    · exact hmove hr
    · exact .written _ rfl rfl hok hr
  | storeIf k' hash data freshTtl staleTtl predicate wanted =>
    obtain rfl := Option.some.inj hkey
    obtain ⟨-, hfr, he⟩ := h.storeIf rb k' hash now data freshTtl staleTtl predicate wanted
    rcases he.record h hfr.content with ⟨-, hr⟩ | ⟨hok, hr⟩
    · exact hmove hr
    · exact .written _ rfl rfl hok hr
  | storeMarker k' hash data freshTtl staleTtl =>
    obtain rfl := Option.some.inj hkey
    obtain ⟨-, hfr, he⟩ := h.storeMarker rb k' hash now data freshTtl staleTtl
    rcases he.record h hfr.content with ⟨-, hr⟩ | ⟨hok, hr⟩
    · exact hmove hr
    · exact .written _ rfl rfl hok hr
  | freshen k' freshTtl staleTtl =>
    obtain rfl := Option.some.inj hkey
    obtain ⟨-, hfr, ⟨-, he⟩ | ⟨hok, c, hc, hentry, hv⟩⟩ := h.freshen k' now freshTtl staleTtl
    · exact hquiet (congrArg (fun z => view z k') he)
    · cases hd : c.data with
      | none => exact .lost (record_counter hv hd)
      | some b =>
        refine .freshened freshTtl staleTtl _ rfl hok (record_of_view hc hd) hentry ?_
        have hbody : ((Shm.freshen z k' now freshTtl staleTtl).1.blob b).body = (z.blob b).body :=
          congrArg Prod.snd (hfr.content b (h.data_lt hc hd))
        refine (record_of_view hv (b := b) hd).trans ?_
        rw [hbody]
        rfl
  | claim k' hash lockTtl =>
    obtain rfl := Option.some.inj hkey
    obtain ⟨-, -, he⟩ := h.claim rb k' hash now lockTtl
    exact hsame he.unwritten
  | countMiss k' hash minUses window =>
    obtain rfl := Option.some.inj hkey
    obtain ⟨-, -, he⟩ := h.countMiss rb k' hash now minUses window
    exact hsame he.unwritten
  | resolveMiss k' hash minUses window lockTtl =>
    obtain rfl := Option.some.inj hkey
    obtain ⟨-, -, he⟩ := h.resolveMiss rb k' hash now minUses window lockTtl
    exact hsame he.unwritten
  | owns k' owner => exact hquiet rfl
  | unstub k' owner =>
    obtain rfl := Option.some.inj hkey
    obtain ⟨-, -, ⟨he, -⟩ | ⟨c, hv, -, -, -, -, hend⟩⟩ := h.unstub rb k' owner now
    · exact hquiet (congrArg (fun z => view z k') he)
    · rcases hend with hun | ⟨-, -, -, hn⟩
      · refine hsame (Or.inl ?_)
        show (view (Shm.unstub rb z k' owner now) k').map _ = _
        rw [hun, hv]
        rfl
      · refine .lost ?_
        show record (Shm.unstub rb z k' owner now) k' = none
        rw [record, hn]
        rfl
  | l2NegCheck k' hash =>
    obtain ⟨h1, hk, hp⟩ := h.l2NegCheck k' hash now
    exact hquiet (congrFun (hk.view_eq hp h.queues h1.queues) k)
  | l2NegSet k' hash ttl =>
    obtain rfl := Option.some.inj hkey
    obtain ⟨-, -, he⟩ := h.l2NegSet rb k' hash now ttl
    rcases he with ⟨he, -⟩ | ⟨c, hv, -, hv'⟩ | ⟨hv, hv' | hv'⟩
    · exact hquiet (congrArg (fun z => view z k') he)
    · refine hsame (Or.inl ?_)
      show (view (Shm.l2NegSet rb z k' hash now ttl) k').map _ = _
      rw [hv, hv']
      rfl
    · exact hquiet (hv'.trans hv.symm)
    · exact hsame (Or.inr ⟨hv, _, hv', rfl⟩)
  | varidxPendingSet k' mark =>
    obtain ⟨h1, hk, hp⟩ := h.varidxPendingSet k' mark
    exact hquiet (congrFun (hk.view_eq hp h.queues h1.queues) k)
  | touchLru k' protectedPct hash =>
    obtain ⟨h1, hk, hp⟩ := h.touchFound k' now protectedPct hash
    exact hquiet (congrFun (hk.view_eq hp h.queues h1.queues) k)
  | accessL1 k' hash q =>
    obtain rfl := Option.some.inj hkey
    obtain ⟨-, -, he⟩ := h.accessL1 k' hash now q
    refine hsame (Or.inl ?_)
    show (view (Shm.accessL1 z k' hash now q).1 k').map Core.stored = _
    generalize Shm.accessL1 z k' hash now q = r at he ⊢
    obtain ⟨z', verdict⟩ := r
    cases verdict with
    | refresh body =>
      obtain ⟨c, hv, -, -, hv'⟩ := he
      rw [hv, hv']
      rfl
    | miss | error | hit | stale | regenerate | expired => exact congrArg _ (congrFun he k')
  | purgeKey k' =>
    obtain ⟨h1, hk, -⟩ := h.purgeKey rb k'
    exact hmove (hk.record h h1)
  | purgeIfBlob k' stored =>
    obtain ⟨h1, hk, -⟩ := h.purgeIfBlob rb k' stored
    exact hmove (hk.record h h1)
  | purgeBatch | purgeAll | breakerWrite | admissionWrite => cases hkey

end Shm
end CacheTurbo
