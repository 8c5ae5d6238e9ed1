/-
# When must-revalidate is honoured

A body that came with `must-revalidate` has no stale window: it is stored with a
life that ends with its freshness, and with no life on error.  Two paths open one
all the same.  A zero lifetime is stored with the zero that means no deadline,
and a 304 computes a new window without knowing of the directive.

`never_served_late` says that there is no third: as long as no step of a run takes
one of these two paths, no request is served late.
-/

import CacheTurbo.Http.Revalidate

namespace CacheTurbo
namespace Http

open Bytes Blob
open Shm (Zone Rbtree ZoneOp L1Req L1Verdict NodeKind Record record view Wf BlobId getU32)

/-! ## The zone's lookup -/

/-- A node without a body is empty. -/
theorem len_of_no_data {held pending : List BlobId} {z : Zone} (h : Wf held pending [] [] [] z)
    {a : Shm.Addr} (ha : a ∈ z.resident) (hd : (z.mem a).data = none) : (z.mem a).len = 0 := by
  have hok := h.queues.shape a ha
  unfold Shm.NodeOk at hok
  split_ifs at hok with hk
  · exact hok.2.1
  · rw [hd] at hok
    cases hok.1

/-- A record whose life ends with its freshness, and that has no life on error. -/
structure Record.Closed (r : Record) : Prop where
  deadline : r.staleUntil ≠ 0
  stale : r.staleUntil ≤ r.freshUntil
  sie : getU32 r.body 40 = 0

/-- A record with one deadline for both windows, in the future. -/
theorem Record.Closed.of_deadline {r : Record} {now : ℕ} {ttl : Time} (hpos : 0 < ttl)
    (hfresh : r.freshUntil = now + ttl) (hstale : r.staleUntil = if ttl ≠ 0 then now + ttl else 0)
    (hsie : getU32 r.body 40 = 0) : Record.Closed r := by
  rw [if_pos hpos.ne'] at hstale
  refine ⟨?_, ?_, hsie⟩
  · have hlt : (0 : ℤ) < ttl := hpos
    rw [hstale]
    show (now + ttl : ℤ) ≠ 0
    omega
  · rw [hstale, hfresh]

/-- Load does not widen a window that is not there. -/
theorem staleWindow_closed {freshUntil staleUntil : Time} (h : staleUntil ≤ freshUntil)
    (load : ℤ) : Shm.staleWindow freshUntil staleUntil load = staleUntil := by
  unfold Shm.staleWindow
  rw [if_neg]
  rintro ⟨-, -, hpos⟩
  have hle : (staleUntil - freshUntil : ℤ) ≤ 0 := Int.sub_nonpos_of_le h
  exact absurd hpos (not_lt.2 hle)

/-- A body without a stale-if-error window is not armed. -/
theorem sieArmed_eq_false {z : Zone} {a : Shm.Addr} (now : Time)
    (hsie : ∀ b, (z.mem a).data = some b → getU32 (z.blob b).body 40 = 0) :
    Shm.sieArmed z a now = false := by
  unfold Shm.sieArmed
  cases hd : (z.mem a).data with
  | none => rfl
  | some b => simp [hsie b hd]

/-- The stale-if-error test reads the node and its body. -/
theorem sieArmed_congr {z z' : Zone} (a : Shm.Addr) (now : Time) (hmem : z'.mem = z.mem)
    (hrest : z'.rest = z.rest) : Shm.sieArmed z' a now = Shm.sieArmed z a now := by
  unfold Shm.sieArmed
  rw [hmem]
  cases (z.mem a).data with
  | none => rfl
  | some b =>
    have hbody : (z'.blob b).body = (z.blob b).body :=
      congrArg Prod.snd (Shm.content_of_rest hrest b)
    simp only [hbody]

/-- A read of a body changes no node and no body. -/
theorem sieArmed_access (z : Zone) (b : BlobId) (a : Shm.Addr) (now : Time) :
    Shm.sieArmed (z.access b) a now = Shm.sieArmed z a now := by
  refine sieArmed_congr a now ?_ ?_
  all_goals
    unfold Shm.Zone.access
    split_ifs <;> rfl

/-- **What the two arms hand out**: the snapshot for an origin error first. -/
theorem armSnapshots_verdict {z : Zone} {a : Shm.Addr} {b : BlobId} (now : Time) (q : L1Req)
    (hd : (z.mem a).data = some b) (hlen : (z.mem a).len ≠ 0) :
    (Shm.armSnapshots z a now q).2 = .expired
      ((if q.sieArm && Shm.sieArmed z a now then [b] else []) ++ if q.brkArm then [b] else []) := by
  have hacquire : Shm.sieArmed (Shm.blobAcquire z b) a now = Shm.sieArmed z a now :=
    sieArmed_congr a now rfl (Shm.rest_blobAcquire z b)
  unfold Shm.armSnapshots
  rw [hd]
  dsimp only
  rw [if_neg hlen]
  cases q.sieArm with
  | false =>
    simp only [Bool.false_and, Bool.false_eq_true, if_false, List.nil_append]
    cases q.brkArm <;> rfl
  | true =>
    cases q.brkArm with
    | false =>
      simp only [Bool.true_and, if_true, Bool.false_eq_true, if_false, sieArmed_access]
      cases Shm.sieArmed z a now <;> rfl
    | true =>
      simp only [Bool.true_and, if_true, sieArmed_access, hacquire]
      cases Shm.sieArmed z a now <;> rfl

/-- Arming for the breaker is not service. -/
theorem armSnapshots_serves {z : Zone} {a : Shm.Addr} (now : Time) (q : L1Req)
    (hsie : ∀ b, (z.mem a).data = some b → getU32 (z.blob b).body 40 = 0) :
    L1Verdict.serves q (Shm.armSnapshots z a now q).2 = false := by
  cases hd : (z.mem a).data with
  | none =>
    unfold Shm.armSnapshots
    rw [hd]
    simp [L1Verdict.serves]
  | some b =>
    by_cases hlen : (z.mem a).len = 0
    · unfold Shm.armSnapshots
      rw [hd]
      dsimp only
      rw [if_pos hlen]
      simp [L1Verdict.serves]
    · rw [armSnapshots_verdict now q hd hlen, sieArmed_eq_false now hsie]
      cases hbrk : q.brkArm <;> simp [L1Verdict.serves, hbrk]

/-- **A closed record is served only while it is fresh**, whatever the load and the
request's own bounds. -/
theorem accessL1_closed {held : List BlobId} {z : Zone} (h : Wf held [] [] [] [] z)
    {keyHash : KeyHash} {hash : UInt32} {now : Time} {q : L1Req}
    (hclosed : ∀ r, record z keyHash = some r → Record.Closed r)
    (hserves : L1Verdict.serves q (Shm.accessL1 z keyHash hash now q).2 = true) :
    ∀ c, view z keyHash = some c → now < c.freshUntil := by
  intro c hc
  unfold Shm.accessL1 at hserves
  cases hl : Shm.lookup z keyHash with
  | none =>
    rw [Shm.view_none hl] at hc
    cases hc
  | some a =>
    have hcore : view z keyHash = some (z.mem a).core := Shm.view_lookup hl
    rw [hc] at hcore
    obtain rfl := Option.some.inj hcore
    show now < (z.mem a).freshUntil
    obtain ⟨ha, -⟩ := h.queues.lookup_resident hl
    have hrecord : ∀ b, (z.mem a).data = some b → Record.Closed
        ⟨(z.mem a).kind, (z.blob b).body, (z.mem a).len, (z.mem a).freshUntil,
          (z.mem a).staleUntil⟩ := fun b hb => hclosed _ (Shm.record_of_view hc hb)
    rw [hl] at hserves
    dsimp only at hserves
    split_ifs at hserves with hhit hstale
    · exact hhit.2.2.1
    · obtain ⟨-, -, hopen, hlen, -⟩ := hstale
      cases hd : (z.mem a).data with
      | none => exact absurd hlen (by rw [len_of_no_data h ha hd]; exact Nat.lt_irrefl 0)
      | some b =>
        have hr := hrecord b hd
        rw [staleWindow_closed hr.stale] at hopen
        rcases hopen with h0 | hlt
        · exact absurd h0 hr.deadline
        · exact lt_of_lt_of_le hlt hr.stale
    · have hmark : ((z.setNode a fun n => { n with varidxPending := false }).mem a).data =
          (z.mem a).data := by
        rw [Shm.setNode_mem_self]
      have hno := armSnapshots_serves (z := z.setNode a fun n => { n with varidxPending := false })
        (a := a) now q fun b hb => (hrecord b (hmark ▸ hb)).sie
      rw [hno] at hserves
      cases hserves

/-! ## The second level -/

/-- What is promoted has a life left. -/
theorem accessL2_promote {now : Time} {l2FreshOk l2StaleOk : Bool} {blob : Bytes}
    {remFresh remStale : Time}
    (h : accessL2 now l2FreshOk l2StaleOk blob = .promote remFresh remStale) :
    remFresh = (l2Remaining now (blobHdrRead blob)).1 ∧
      remStale = (l2Remaining now (blobHdrRead blob)).2 ∧
        0 < (l2Remaining now (blobHdrRead blob)).2 := by
  unfold accessL2 at h
  cases hv : blobValidate now blob with
  | none =>
    rw [hv] at h
    cases h
  | some v =>
    rw [hv] at h
    dsimp only at h
    rw [(blobValidate_hdr hv).2] at h
    split_ifs at h with hexpired
    · cases h
      exact ⟨rfl, rfl, not_le.1 hexpired⟩

/-- Equal windows leave equal rests. -/
theorem l2Remaining_closed {now : Time} {blob : Bytes} (h : getU32 blob 36 = getU32 blob 32) :
    (l2Remaining now (blobHdrRead blob)).2 = (l2Remaining now (blobHdrRead blob)).1 := by
  show ((getU32 blob 36 : ℕ) : ℤ) - _ = ((getU32 blob 32 : ℕ) : ℤ) - _
  rw [h]

/-- **A closed blob is served from the second level only while it is fresh.** -/
theorem accessL2_closed {now : Time} {l2FreshOk l2StaleOk : Bool} {blob : Bytes}
    (heq : getU32 blob 36 = getU32 blob 32) (hsie : getU32 blob 40 = 0)
    (hserves : (accessL2 now l2FreshOk l2StaleOk blob).serves = true) :
    0 < (l2Remaining now (blobHdrRead blob)).1 := by
  cases hverdict : accessL2 now l2FreshOk l2StaleOk blob with
  | miss =>
    rw [hverdict] at hserves
    cases hserves
  | revalidate =>
    rw [hverdict] at hserves
    cases hserves
  | expired sie =>
    rw [hverdict] at hserves
    obtain rfl : sie = true := hserves
    unfold accessL2 at hverdict
    cases hv : blobValidate now blob with
    | none =>
      rw [hv] at hverdict
      cases hverdict
    | some v =>
      rw [hv] at hverdict
      dsimp only at hverdict
      split_ifs at hverdict
      have hopen : sieWindowOpen now blob = true := L2Verdict.expired.inj hverdict
      simp [sieWindowOpen, hsie] at hopen
  | promote remFresh remStale =>
    rw [← l2Remaining_closed heq]
    exact (accessL2_promote hverdict).2.2

/-! ## The invariant -/

namespace Life

variable (rb : Rbtree)

/-- **No step opens a window that the directive had closed**: no response with the
directive and without a lifetime is stored, and no 304 freshens an entry that came with
the directive, unless the window it computes is no longer than the lifetime. -/
def OpensNoWindow (s : Life) : ℕ × LifeEvent → Prop
  | (now, .respond conf _ keyHash hash resp captured wanted) =>
      resp.mustRevalidate = true → ∀ wb, stored conf.1 now resp captured = some wb →
        (zoneStore rb s now keyHash hash resp.status wb wanted).2 = .ok →
          honouredTtl conf.1 resp (statusTtl conf.1 resp.status) ≠ 0
  | (_, .notModified conf keyHash resp) =>
      s.must keyHash = true → (∃ r, record s.zone keyHash = some r ∧ r.kind = .entry) →
        0 < freshenTtl conf.1 resp ∧
          (conf.1.staleMult = 1 ∨ freshenTtl conf.1 resp = ttlMax)
  | _ => True

/-- What came with the directive has no window, in either level. -/
structure Closed (s : Life) : Prop where
  wf : ∃ held, Wf held [] [] [] [] s.zone
  zone : ∀ k r, s.must k = true → record s.zone k = some r → Record.Closed r
  l2 : ∀ k blob, s.l2Must k = true → s.l2 k = some blob →
    getU32 blob 36 = getU32 blob 32 ∧ getU32 blob 40 = 0

variable {rb} {s : Life}

theorem Closed.start {zone : Zone} (h : ∃ held, Wf held [] [] [] [] zone) : (start zone).Closed where
  wf := h
  zone _ _ := nofun
  l2 _ _ := nofun

/-- Each digest keeps its record or loses it. -/
theorem Closed.survives (hs : s.Closed) {z' : Zone} (hwf : ∃ held, Wf held [] [] [] [] z')
    (h : ∀ k, record z' k = none ∨ record z' k = record s.zone k) :
    Closed { s with zone := z' } where
  wf := hwf
  zone k r hmust hr := by
    rcases h k with hn | he
    · exact absurd (hr.symm.trans hn) nofun
    · exact hs.zone k r hmust (he ▸ hr)
  l2 := hs.l2

/-- A store keeps the invariant if the record it writes is closed. -/
theorem Closed.setZone (hs : s.Closed) {k : KeyHash} {now freshTtl staleTtl : Time} {data : Bytes}
    {kind : NodeKind} {z' : Zone} {rc : Rc} {pin : Option BlobId} {must : Bool}
    (hwf : ∃ held, Wf held [] [] [] [] z') (hframe : Shm.Framed k s.zone z')
    (heffect : Shm.StoreEffect s.zone k now data freshTtl staleTtl kind z' rc pin)
    (hclosed : rc = .ok → must = true →
      Record.Closed (Record.stored kind data now freshTtl staleTtl)) :
    (s.setZone k (z', rc) must).Closed := by
  obtain ⟨held, hwf₀⟩ := hs.wf
  have hself := heffect.record hwf₀ hframe.content
  have hother : ∀ k', k' ≠ k → record z' k' = none ∨ record z' k' = record s.zone k' := fun k' hk' =>
    hwf₀.record_survives hframe.content (hframe.other k' hk')
  refine ⟨hwf, fun k' r hmust hr => ?_, hs.l2⟩
  by_cases hk : k' = k
  · subst hk
    rcases hself with ⟨hrc, hn | he⟩ | ⟨hrc, hstored⟩
    · exact absurd (hr.symm.trans hn) nofun
    · refine hs.zone k' r ?_ (he ▸ hr)
      simpa [Life.setZone, hrc] using hmust
    · have hm : must = true := by simpa [Life.setZone, hrc] using hmust
      have hrec : some r = some (Record.stored kind data now freshTtl staleTtl) := hr.symm.trans hstored
      rw [Option.some.inj hrec]
      exact hclosed hrc hm
  · have hm : s.must k' = true := by
      unfold Life.setZone at hmust
      dsimp only at hmust
      split_ifs at hmust
      · rwa [Function.update_of_ne hk] at hmust
      · exact hmust
    rcases hother k' hk with hn | he
    · exact absurd (hr.symm.trans hn) nofun
    · exact hs.zone k' r hm (he ▸ hr)

theorem Closed.setL2 (hs : s.Closed) {k : KeyHash} {blob : Bytes} {must : Bool}
    (hclosed : must = true → getU32 blob 36 = getU32 blob 32 ∧ getU32 blob 40 = 0) :
    (s.setL2 k blob must).Closed := by
  refine ⟨hs.wf, hs.zone, fun k' blob' hmust hblob => ?_⟩
  unfold Life.setL2 at hmust hblob
  dsimp only at hmust hblob
  by_cases hk : k' = k
  · subst hk
    rw [Function.update_self] at hmust hblob
    rw [← Option.some.inj hblob]
    exact hclosed hmust
  · rw [Function.update_of_ne hk] at hmust hblob
    exact hs.l2 k' blob' hmust hblob

/-- The windows that come with the directive, and the blob that carries them. -/
theorem stored_mustRevalidate {conf : HonouringConf} {now : Time} {resp : OriginResponse}
    {captured : Captured} {wb : Windows × Bytes} (hmust : resp.mustRevalidate = true)
    (h : stored conf.1 now resp captured = some wb) :
    wb.1 = ⟨honouredTtl conf.1 resp (statusTtl conf.1 resp.status),
        honouredTtl conf.1 resp (statusTtl conf.1 resp.status), 0⟩ ∧
      0 ≤ honouredTtl conf.1 resp (statusTtl conf.1 resp.status) ∧
        getU32 wb.2 36 = getU32 wb.2 32 ∧ getU32 wb.2 40 = 0 := by
  obtain ⟨w, hw, hwb⟩ := Option.bind_eq_some_iff.1 h
  obtain ⟨blob, hblob, rfl⟩ := Option.map_eq_some_iff.1 hwb
  have hfit := bodyFilterWindows_fit hw
  unfold bodyFilterWindows at hw
  by_cases hneg : statusTtl conf.1 resp.status < 0
  · rw [if_pos hneg] at hw
    cases hw
  · rw [if_neg hneg] at hw
    have hpos := honouredTtl_nonneg conf.1 resp (not_lt.1 hneg)
    have hwin := (Option.some.inj hw).symm.trans (windowsFor_mustRevalidate conf.2 hmust hpos)
    refine ⟨hwin, hpos, ?_⟩
    unfold captureBlob at hblob
    split_ifs at hblob
    obtain rfl := Option.some.inj hblob
    obtain ⟨hfresh, hstale, hsie⟩ := bodyFilterBlobWrite_windows now resp.status captured hfit
    rw [hfresh, hstale, hsie, hwin]
    exact ⟨rfl, rfl⟩

/-- An operation that stores nothing and no marker. -/
theorem Closed.quiet (hs : s.Closed) {now : ℕ} {op : ZoneOp} (hwrites : op.writes now = none)
    (hfreshen : ∀ k freshTtl staleTtl, op ≠ .freshen k freshTtl staleTtl) :
    Closed { s with zone := (Shm.exec rb s.zone now op).1 } := by
  obtain ⟨held, hwf⟩ := hs.wf
  refine hs.survives ⟨_, (hwf.exec rb now op).1⟩ fun k => ?_
  cases hwf.recordMove rb now op k with
  | lost hn => exact Or.inl hn
  | kept he => exact Or.inr he
  | written r _ hop => exact absurd (hwrites.symm.trans hop) nofun
  | freshened freshTtl staleTtl _ hop => exact absurd hop (hfreshen k freshTtl staleTtl)

/-- **A step that opens no window keeps what is closed closed.** -/
theorem Closed.step (hs : s.Closed) {event : ℕ × LifeEvent} (hopen : OpensNoWindow rb s event) :
    (step rb s event).Closed := by
  obtain ⟨held, hwf⟩ := hs.wf
  obtain ⟨now, event⟩ := event
  cases event with
  | respond conf backend keyHash hash resp captured wanted =>
    unfold Life.step
    dsimp only
    cases hst : stored conf.1 now resp captured with
    | none => exact hs
    | some wb =>
      dsimp only
      have hspec := bodyFilterStore_spec rb hwf keyHash hash now resp.status wb.2 wb.1 wanted
      have hzone : (s.setZone keyHash
          (zoneStore rb s now keyHash hash resp.status wb wanted) resp.mustRevalidate).Closed := by
        refine hs.setZone ⟨_, hspec.1⟩ hspec.2.1 hspec.2.2 fun hrc hmust => ?_
        obtain ⟨hwin, hpos, -, hsie⟩ := stored_mustRevalidate hmust hst
        have hne := hopen hmust wb hst hrc
        rw [hwin]
        exact .of_deadline (lt_of_le_of_ne hpos (Ne.symm hne)) rfl rfl hsie
      split_ifs
      · exact hzone
      · exact hzone.setL2 fun hmust => (stored_mustRevalidate hmust hst).2.2
  | peer conf keyHash resp captured =>
    unfold Life.step
    dsimp only
    cases hst : stored conf.1 now resp captured with
    | none => exact hs
    | some wb => exact hs.setL2 fun hmust => (stored_mustRevalidate hmust hst).2.2
  | notModified conf keyHash resp =>
    unfold Life.step
    dsimp only
    generalize httl : freshenTtl conf.1 resp = ttl
    generalize hwin : staleTtl ttl conf.1.staleMult = window
    have hmove := hwf.recordMove rb now (.freshen keyHash ttl window)
    have hwf' := (hwf.exec rb now (.freshen keyHash ttl window)).1
    refine ⟨⟨_, hwf'⟩, fun k r hmust hr => ?_, hs.l2⟩
    cases hmove k with
    | lost hn => exact absurd (hr.symm.trans hn) nofun
    | kept he => exact hs.zone k r hmust (he ▸ hr)
    | written r' _ hop => cases hop
    | freshened freshTtl staleTtl' old hop _ hold hkind hnew =>
      obtain ⟨rfl, rfl, rfl⟩ := ZoneOp.freshen.inj hop
      obtain ⟨hpos, hmult⟩ := hopen hmust ⟨old, hold, hkind⟩
      have hself : staleTtl ttl conf.1.staleMult = ttl :=
        httl ▸ staleTtl_eq_self hpos (honouredTtl_le _ _ _) hmult
      rw [httl] at hpos
      obtain rfl := Option.some.inj (hr.symm.trans hnew)
      rw [← hwin, hself]
      exact .of_deadline hpos rfl rfl (hs.zone _ old hmust hold).sie
  | lookupL2 keyHash hash l2FreshOk l2StaleOk =>
    unfold Life.step
    dsimp only
    cases hl2 : s.l2 keyHash with
    | none => exact hs
    | some blob =>
      dsimp only
      cases hverdict : accessL2 now l2FreshOk l2StaleOk blob with
      | miss => exact hs
      | expired sie => exact hs
      | revalidate => exact hs
      | promote remFresh remStale =>
        obtain ⟨hwf', hframe, heffect⟩ := hwf.storeIf rb keyHash hash now blob remFresh remStale
          .newer false
        refine hs.setZone ⟨_, hwf'⟩ hframe heffect fun _ hmust => ?_
        obtain ⟨heq, hsie⟩ := hs.l2 keyHash blob hmust hl2
        obtain ⟨rfl, rfl, hpos⟩ := accessL2_promote hverdict
        rw [l2Remaining_closed heq] at hpos ⊢
        exact .of_deadline hpos rfl rfl hsie
  | loseL2 keyHash =>
    refine ⟨hs.wf, hs.zone, fun k blob hmust hblob => ?_⟩
    unfold Life.step at hblob
    dsimp only at hblob
    by_cases hk : k = keyHash
    · subst hk
      rw [Function.update_self] at hblob
      cases hblob
    · rw [Function.update_of_ne hk] at hblob
      exact hs.l2 k blob hmust hblob
  | zoneOp op hop =>
    cases op with
    | store | storeIf | freshen => cases hop
    | storeMarker keyHash hash data freshTtl staleTtl =>
      obtain ⟨hwf', hframe, heffect⟩ := hwf.storeMarker rb keyHash hash now data freshTtl staleTtl
      exact hs.setZone ⟨_, hwf'⟩ hframe heffect fun _ => nofun
    | _ => exact @quiet rb s hs now _ rfl fun _ _ _ => nofun

/-- **Where everything is closed nobody is served late.** -/
theorem Closed.not_servedLate (hs : s.Closed) (event : ℕ × LifeEvent) : ¬ ServedLate s event := by
  obtain ⟨held, hwf⟩ := hs.wf
  obtain ⟨now, event⟩ := event
  intro hlate
  cases event with
  | respond | peer | notModified | loseL2 => exact hlate
  | lookupL2 keyHash hash l2FreshOk l2StaleOk =>
    obtain ⟨hmust, blob, hblob, hserves, hdone⟩ := hlate
    obtain ⟨heq, hsie⟩ := hs.l2 keyHash blob hmust hblob
    exact absurd (accessL2_closed heq hsie hserves) (not_lt.2 hdone)
  | zoneOp op hop =>
    cases op with
    | accessL1 keyHash hash q =>
      obtain ⟨hmust, hserves, c, hc, hdone⟩ := hlate
      exact absurd (accessL1_closed hwf (fun r hr => hs.zone keyHash r hmust hr) hserves c hc)
        (not_lt.2 hdone)
    | _ => exact hlate

/-- **must-revalidate is honoured along every run that opens no window**, from a fresh
zone and an empty second level: whatever is stored, freshened, widened, evicted, promoted
and asked for, a body that came with the directive is served while it is fresh, or by the
breaker. -/
theorem never_served_late (mem : Shm.Addr → Shm.Node) (blob : BlobId → Shm.Blob)
    (answers : ℕ → Option Shm.Addr) (sketch : Shm.Sketch) (admission : Bool) (breakerState : ℕ)
    (run : List (ℕ × LifeEvent))
    (hrun : Run.Along (step rb) (OpensNoWindow rb)
      (start (Shm.freshZone mem blob answers sketch admission breakerState)) run) :
    Run.Along (step rb) (fun s event => ¬ ServedLate s event)
      (start (Shm.freshZone mem blob answers sketch admission breakerState)) run := by
  refine Run.along_of_invariant (P := Closed) (fun s event hs hopen => ?_) ?_ hrun
  · exact ⟨hs.not_servedLate event, hs.step hopen⟩
  · exact Closed.start ⟨[], Wf.freshZone mem blob answers sketch admission breakerState⟩

/-! ## Two runs -/

/-- A location that honours `Cache-Control`; pages live for a minute. -/
def minuteConf : CaptureConf :=
  { enable := true, shmZone := true, autoVary := false,
    key := { key := some fun r => r.uri, autoKeyCookies := [], keyCookies := [] },
    valid := 60, validStatus := [], honorCc := true, ignoreCc := false, staleMult := 4,
    keepStale := 0, maxSize := 0, vetted := vetted_nil }

/-- A page with `must-revalidate` and the given lifetime. -/
def mustPage (ttl : Time) : OriginResponse :=
  { status := 200, upstreamTtl := ttl, swr := -1, sie := -1, mustRevalidate := true,
    cacheable := true, requireHdrOk := true, encoded := false, encodedOk := false,
    noStoreOk := true, trailers := false, ambiguousFraming := false }

/-- The key of the page. -/
def pageKey : KeyHash := Vector.replicate 32 1

/-- A request without bounds of its own. -/
def plainLookup : L1Req :=
  { protectedPct := 0, load := 1000, freshOk := true, staleOk := true, brkOnly := false,
    revalidate := false, lockResult := none, backgroundUpdate := true, dice := false,
    lockTtl := 5, cleanupOk := true, brkArm := false, sieArm := true }

/-- The page is stored at second 1000. -/
def mustStore (ttl : Time) : ℕ × LifeEvent :=
  (1000, .respond ⟨minuteConf, rfl⟩ false pageKey 0 (mustPage ttl) ⟨0, 0, [], [33], List.replicate 29 48⟩
    false)

/-- It is stored, and asked for at second 1100. -/
def mustRun (ttl : Time) : List (ℕ × LifeEvent) :=
  [mustStore ttl, (1100, .zoneOp (.accessL1 pageKey 0 plainLookup) trivial)]

/-- A zone whose slab always finds room. -/
def roomyZone : Zone :=
  Shm.freshZone (fun _ => ⟨Vector.replicate 32 0, .entry, none, 0, 0, 0, false, 0, 0, 0, 0, 0,
    .segProbation, false, false, false, 0⟩) (fun _ => ⟨0, 0, false, 0, []⟩) some
    ⟨none, 0, 0, 0, 0, 0, 0⟩ false 0

theorem never_served_late_minute :
    Run.Along (step Rbtree.unbalanced) (fun s event => ¬ ServedLate s event) (start roomyZone)
      (mustRun 60) :=
  never_served_late _ _ _ _ _ _ (mustRun 60) ⟨fun _ _ _ _ => by decide, trivial, trivial⟩

/-- **A page with `must-revalidate` whose lifetime is zero is served for ever.** -/
theorem never_served_late_fails : ¬ ∀ (rb : Rbtree) (mem : Shm.Addr → Shm.Node)
    (blob : BlobId → Shm.Blob) (answers : ℕ → Option Shm.Addr) (sketch : Shm.Sketch)
    (admission : Bool) (breakerState : ℕ) (run : List (ℕ × LifeEvent)),
    Run.Along (step rb) (fun s event => ¬ ServedLate s event)
      (start (Shm.freshZone mem blob answers sketch admission breakerState)) run := by
  intro h
  have hrun : Run.Along (step Rbtree.unbalanced) (fun s event => ¬ ServedLate s event)
      (start roomyZone) (mustRun 0) := h _ _ _ _ _ _ _ _
  have hview : (view (step Rbtree.unbalanced (start roomyZone) (mustStore 0)).zone pageKey).map
      Shm.Core.freshUntil = some 1000 := by decide +kernel
  obtain ⟨c, hc, hfresh⟩ := Option.map_eq_some_iff.1 hview
  refine hrun.2.1 ⟨by decide +kernel, by decide +kernel, c, hc, ?_⟩
  rw [hfresh]
  decide

end Life

end Http
end CacheTurbo
