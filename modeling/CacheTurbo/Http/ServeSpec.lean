/-
# The storage guards

Four flags of a blob limit where it may go.  `serve` asks for all four, and
`sieRewrite` for three: it does not look at `BREAKER_ONLY`.  So a stored body
that only an open breaker may fall back on does reach a client when the origin
answers with an error (`deliver_guarded_iff`).
-/

import CacheTurbo.Http.Serve

namespace CacheTurbo
namespace Http

open Bytes Blob

/-! ## What the guards ask for -/

/-- A request accepts a coding: an element of its `Accept-Encoding` list names the
coding and does not give it the weight zero. -/
def AcceptsCoding (r : Request) (name : Bytes) : Prop :=
  ∃ list, r.headersIn.acceptEncoding = some list ∧ ∃ element ∈ list.splitOn 44,
    eqFold (aeElement element).1 name ∧ aeQOk (aeElement element).2

/-- A delivery is in order: what the four flags of the blob say of the request and of the
way it is delivered. -/
structure Guarded (r : Request) (d : Delivered) : Prop where
  breakerOnly : hasFlag d.blob.hdr.flags blobfBreakerOnly → d.reason = .staleBreaker
  auth : r.headersIn.authorization.isSome → hasFlag d.blob.hdr.flags blobfAuthShareable
  head : hasFlag d.blob.hdr.flags blobfHeadDerived → r.method = .head
  encoded : hasFlag d.blob.hdr.flags blobfOriginEncoded →
    ∃ name, aeClassName (flagsAeClass d.blob.hdr.flags) = some name ∧ AcceptsCoding r name

/-- A site is the fallback of an open breaker. -/
def Site.breakerOpen : Site → Prop
  | .onlyIfCached consult armed state => consult ∧ armed ∧ state = Shm.breakerOpen
  | .breakerGate state armed => armed ∧ state = Shm.breakerOpen
  | _ => False

/-! ## The guards of the code -/

/-- Names of one length compare without their case. -/
theorem eqFold_length {a b : Bytes} (h : eqFold a b) : a.length = b.length := by
  have hmap := congrArg List.length (eq_of_beq h)
  rwa [List.length_map, List.length_map] at hmap

/-- The acceptance test of the code, for a class that has a name. -/
theorem aeClassAccepted_iff {r : Request} {cls : ℕ} (hcls : cls ≠ aeClassIdentity) :
    aeClassAccepted r cls = true ↔
      ∃ name, aeClassName cls = some name ∧ AcceptsCoding r name := by
  have helement : ∀ element name : Bytes,
      ((aeElement element).1.length == name.length && eqFold (aeElement element).1 name &&
        aeQOk (aeElement element).2) = true ↔
      eqFold (aeElement element).1 name ∧ aeQOk (aeElement element).2 := by
    intro element name
    simp only [Bool.and_eq_true, beq_iff_eq]
    constructor
    · rintro ⟨⟨-, hname⟩, hq⟩
      exact ⟨hname, hq⟩
    · rintro ⟨hname, hq⟩
      exact ⟨⟨eqFold_length hname, hname⟩, hq⟩
  rw [aeClassAccepted, if_neg hcls]
  constructor
  · intro h
    split at h
    · next name list hname hlist =>
      obtain ⟨element, hmem, hok⟩ := List.any_eq_true.1 h
      exact ⟨name, hname, list, hlist, element, hmem, (helement element name).1 hok⟩
    · cases h
  · rintro ⟨name, hname, list, hlist, element, hmem, hok⟩
    simp only [hname, hlist]
    exact List.any_eq_true.2 ⟨element, hmem, (helement element name).2 hok⟩

theorem encodedRefused_eq_false {r : Request} {flags : ℕ} :
    encodedRefused r flags = false ↔ (hasFlag flags blobfOriginEncoded →
      ∃ name, aeClassName (flagsAeClass flags) = some name ∧ AcceptsCoding r name) := by
  by_cases hflag : hasFlag flags blobfOriginEncoded
  · by_cases hcls : flagsAeClass flags = aeClassIdentity
    · rw [encodedRefused, hcls, hflag]
      constructor
      · intro h
        cases h
      · intro h
        obtain ⟨name, hname, -⟩ := h rfl
        cases hname
    · rw [encodedRefused, hflag, beq_eq_false_iff_ne.2 hcls, Bool.true_and, Bool.false_or,
        Bool.not_eq_false', aeClassAccepted_iff hcls]
      exact ⟨fun h _ => h, fun h => h rfl⟩
  · rw [encodedRefused, Bool.eq_false_iff.2 hflag]
    exact ⟨fun _ h => absurd h Bool.false_ne_true, fun _ => rfl⟩

/-- The three refusals keep the three rules. -/
theorem requestRefused_eq_false {r : Request} {flags : ℕ} :
    requestRefused r flags = false ↔
      (r.headersIn.authorization.isSome → hasFlag flags blobfAuthShareable) ∧
      (hasFlag flags blobfHeadDerived → r.method = .head) ∧
      (hasFlag flags blobfOriginEncoded →
        ∃ name, aeClassName (flagsAeClass flags) = some name ∧ AcceptsCoding r name) := by
  have hauth : authRefused r flags = false ↔
      (r.headersIn.authorization.isSome → hasFlag flags blobfAuthShareable) := by
    rw [authRefused]
    cases r.headersIn.authorization.isSome <;> cases hasFlag flags blobfAuthShareable <;> simp
  have hhead : headRefused r flags = false ↔
      (hasFlag flags blobfHeadDerived → r.method = .head) := by
    rw [headRefused]
    cases hasFlag flags blobfHeadDerived <;> simp
  rw [requestRefused, Bool.or_eq_false_iff, Bool.or_eq_false_iff, hauth, hhead,
    encodedRefused_eq_false, and_assoc]

theorem breakerOnlyRefused_eq_false {flags : ℕ} {xcache : ServeReason} :
    breakerOnlyRefused flags xcache = false ↔
      (hasFlag flags blobfBreakerOnly → xcache = .staleBreaker) := by
  rw [breakerOnlyRefused]
  cases hasFlag flags blobfBreakerOnly <;> simp

/-! ## The two routines -/

/-- What a restore delivers. -/
theorem restoreResponse_eq_some {pool : Pool} {now : Time} {copy : Bytes} {xcache : ServeReason}
    {d : Delivered} : restoreResponse pool now copy xcache = some d ↔
      blobValidate now copy = some d.blob ∧ d.reason = xcache ∧ pool.restoreOk := by
  unfold restoreResponse
  cases hv : blobValidate now copy with
  | none => simp
  | some v =>
    obtain ⟨blob, reason⟩ := d
    cases hp : pool.restoreOk with
    | false => simp
    | true =>
      simp only [if_true, Option.some.injEq, Delivered.mk.injEq, and_true]
      exact and_congr_right fun _ => eq_comm

theorem ofRestore_eq_done {d : Option Delivered} {e : Delivered} :
    ServeRc.ofRestore d = .done e ↔ d = some e := by
  cases d with
  | none => simp [ServeRc.ofRestore]
  | some d => simp [ServeRc.ofRestore]

/-- Everything `serve` delivers is in order, and it is delivered for the reason it is
given. -/
theorem serve_guarded {pool : Pool} {now : Time} {r : Request} {copy : Bytes}
    {stale pinned : Bool} {xcache : ServeReason} {d : Delivered}
    (h : serve pool now r copy stale pinned xcache = .done d) :
    Guarded r d ∧ d.reason = serveReason stale xcache := by
  unfold serve at h
  split_ifs at h with hcleanup hrefused
  obtain ⟨hvalid, hreason, -⟩ := restoreResponse_eq_some.1 (ofRestore_eq_done.1 h)
  obtain ⟨hlen, hhdr⟩ := blobValidate_hdr hvalid
  have hpass : (breakerOnlyRefused (blobFlags copy) xcache ||
      requestRefused r (blobFlags copy)) = false :=
    Bool.eq_false_iff.2 fun hno => hrefused ⟨hlen, hno⟩
  have hflags : d.blob.hdr.flags = blobFlags copy := congrArg BlobHdr.flags hhdr
  obtain ⟨hbrk, hreq⟩ := Bool.or_eq_false_iff.1 hpass
  obtain ⟨hauth, hhead, hencoded⟩ := requestRefused_eq_false.1 hreq
  rw [← hflags] at hauth hhead hencoded hbrk
  refine ⟨⟨fun hflag => ?_, hauth, hhead, hencoded⟩, hreason⟩
  have hx : xcache = .staleBreaker := breakerOnlyRefused_eq_false.1 hbrk hflag
  rw [hreason, hx]
  rfl

/-- Exactly what `sieRewrite` delivers. -/
theorem sieRewrite_eq_done {pool : Pool} {now : Time} {r : Request} {snap : Bytes}
    {d : Delivered} : sieRewrite pool now r snap = .done d ↔
      requestRefused r (blobFlags snap) = false ∧ blobValidate now snap = some d.blob ∧
        d.reason = .staleIfError ∧ pool.restoreOk := by
  rw [sieRewrite]
  constructor
  · intro h
    split_ifs at h with hrefused
    have hrest := restoreResponse_eq_some.1 (ofRestore_eq_done.1 h)
    obtain ⟨hlen, -⟩ := blobValidate_hdr hrest.1
    exact ⟨Bool.eq_false_iff.2 fun hno => hrefused ⟨hlen, hno⟩, hrest⟩
  · rintro ⟨hpass, hrest⟩
    rw [if_neg (by rw [hpass]; simp)]
    exact ofRestore_eq_done.2 (restoreResponse_eq_some.2 hrest)

/-- A body that replaces an origin error keeps the three rules it is asked for. -/
theorem sieRewrite_guarded_iff {pool : Pool} {now : Time} {r : Request} {snap : Bytes}
    {d : Delivered} (h : sieRewrite pool now r snap = .done d) :
    Guarded r d ↔ hasFlag (blobFlags snap) blobfBreakerOnly = false := by
  obtain ⟨hpass, hvalid, hreason, -⟩ := sieRewrite_eq_done.1 h
  have hflags : d.blob.hdr.flags = blobFlags snap :=
    congrArg BlobHdr.flags (blobValidate_hdr hvalid).2
  obtain ⟨hauth, hhead, hencoded⟩ := requestRefused_eq_false.1 hpass
  rw [← hflags] at hauth hhead hencoded ⊢
  constructor
  · intro hguard
    by_contra hflag
    have hbrk := hguard.breakerOnly (Bool.not_eq_false _ ▸ hflag)
    rw [hreason] at hbrk
    cases hbrk
  · intro hflag
    exact ⟨fun hset => absurd (hflag.symm.trans hset) Bool.false_ne_true, hauth, hhead, hencoded⟩

/-! ## The sites -/

/-- A body leaves through the error rewrite although it was stored for the breaker
alone: the snapshot was armed inside its window, the error triggers, the other three
guards let the request pass, and the blob is whole. -/
def LeaksBreakerOnly (pool : Pool) (now : Time) (r : Request) (copy : Bytes) : Site → Prop
  | .originError armedAt useStale sieServing e =>
      hasFlag (blobFlags copy) blobfBreakerOnly ∧ sieWindowOpen armedAt copy ∧
        sieServing = false ∧ useStaleTriggers useStale e.status e.transportFailure ∧
        requestRefused r (blobFlags copy) = false ∧ (blobValidate now copy).isSome ∧
        pool.restoreOk
  | _ => False

theorem sieArm_eq_some {now : Time} {data snap : Bytes} :
    sieArm now data = some snap ↔ sieWindowOpen now data ∧ data = snap := by
  unfold sieArm
  split_ifs with h
  · simp [h]
  · simp [h]

/-- What is delivered from outside the error rewrite is in order, and it is called a
breaker fallback only at a breaker that is open. -/
theorem deliver_guarded {pool : Pool} {now : Time} {r : Request} {copy : Bytes} {site : Site}
    {d : Delivered} (hsite : ∀ armedAt useStale serving e,
      site ≠ .originError armedAt useStale serving e)
    (h : deliver pool now r copy site = .done d) :
    Guarded r d ∧ (d.reason = .staleBreaker → site.breakerOpen) := by
  have hplain : ∀ {copy stale pinned xcache}, xcache ≠ .staleBreaker →
      serve pool now r copy stale pinned xcache = .done d →
      Guarded r d ∧ (d.reason = .staleBreaker → site.breakerOpen) := by
    intro copy stale pinned xcache hx hserve
    obtain ⟨hguard, hreason⟩ := serve_guarded hserve
    refine ⟨hguard, fun hbrk => ?_⟩
    rw [hreason, serveReason] at hbrk
    split_ifs at hbrk with hnone hstale
    exact absurd hbrk hx
  cases site with
  | l1Fresh => exact hplain (by decide) h
  | crossNodeStale => exact hplain (by decide) h
  | refreshStale => exact hplain (by decide) h
  | l1Stale => exact hplain (by decide) h
  | l2Hit remFresh => exact hplain (by decide) h
  | onlyIfCached consult armed state =>
    rw [deliver] at h
    split_ifs at h with hopen
    simp only [Bool.and_eq_true, beq_iff_eq] at hopen
    exact ⟨(serve_guarded h).1, fun _ => ⟨hopen.1.1, hopen.1.2, hopen.2⟩⟩
  | breakerGate state armed =>
    rw [deliver] at h
    split_ifs at h with hact
    refine ⟨(serve_guarded h).1, fun _ => ?_⟩
    unfold breakerAction at hact
    split_ifs at hact with hhalf hopen harmed
    exact ⟨harmed, not_not.1 hopen⟩
  | coldFresh => exact hplain (by decide) h
  | coldWaitTimeout armedAt =>
    rw [deliver] at h
    split at h
    · exact hplain (by decide) h
    · cases h
  | originError armedAt useStale serving e => exact absurd rfl (hsite armedAt useStale serving e)

/-- Exactly what the header filter delivers in the place of an error. -/
theorem deliver_originError {pool : Pool} {now : Time} {r : Request} {copy : Bytes}
    {armedAt : Time} {useStale : ℕ} {serving : Bool} {e : OriginError} {d : Delivered} :
    deliver pool now r copy (.originError armedAt useStale serving e) = .done d ↔
      sieWindowOpen armedAt copy ∧ serving = false ∧
        useStaleTriggers useStale e.status e.transportFailure ∧
        sieRewrite pool now r copy = .done d := by
  rw [deliver]
  by_cases hwindow : sieWindowOpen armedAt copy
  · rw [sieArm_eq_some.2 ⟨hwindow, rfl⟩, trySie]
    split_ifs with htrigger
    · simp only [Bool.and_eq_true, Bool.not_eq_true'] at htrigger
      simp only [hwindow, htrigger, true_and]
    · simp only [Bool.and_eq_true, Bool.not_eq_true', not_and] at htrigger
      constructor
      · intro h
        cases h
      · rintro ⟨-, hserving, hstatus, -⟩
        exact absurd hstatus (htrigger hserving)
  · have hnone : sieArm armedAt copy = none := by rw [sieArm, if_neg hwindow]
    rw [hnone, trySie]
    constructor
    · intro h
      cases h
    · rintro ⟨hopen, -⟩
      exact absurd hopen hwindow

/-- **Which deliveries are in order.**  Whatever the bytes, the request and the site:
what is delivered keeps the rules of the four flags, and a breaker fallback stands at an
open breaker, exactly when the body does not leave through the error rewrite although it
was stored for the breaker alone. -/
theorem deliver_guarded_iff (pool : Pool) (now : Time) (r : Request) (copy : Bytes)
    (site : Site) :
    (∀ d, deliver pool now r copy site = .done d →
      Guarded r d ∧ (d.reason = .staleBreaker → site.breakerOpen)) ↔
    ¬ LeaksBreakerOnly pool now r copy site := by
  by_cases hsite : ∃ armedAt useStale serving e, site = .originError armedAt useStale serving e
  · obtain ⟨armedAt, useStale, serving, e, rfl⟩ := hsite
    constructor
    · rintro h ⟨hflag, hwindow, hserving, htrigger, hpass, hvalid, hpool⟩
      obtain ⟨v, hv⟩ := Option.isSome_iff_exists.1 hvalid
      have hsie : sieRewrite pool now r copy = .done ⟨v, .staleIfError⟩ :=
        sieRewrite_eq_done.2 ⟨hpass, hv, rfl, hpool⟩
      obtain ⟨hguard, -⟩ := h _ (deliver_originError.2 ⟨hwindow, hserving, htrigger, hsie⟩)
      rw [(sieRewrite_guarded_iff hsie).1 hguard] at hflag
      cases hflag
    · intro hleak d hd
      obtain ⟨hwindow, hserving, htrigger, hsie⟩ := deliver_originError.1 hd
      obtain ⟨hpass, hvalid, hreason, hpool⟩ := sieRewrite_eq_done.1 hsie
      refine ⟨(sieRewrite_guarded_iff hsie).2 (Bool.eq_false_iff.2 fun hflag => ?_), fun hbrk => ?_⟩
      · exact hleak ⟨hflag, hwindow, hserving, htrigger, hpass,
          Option.isSome_iff_exists.2 ⟨_, hvalid⟩, hpool⟩
      · rw [hreason] at hbrk
        cases hbrk
  · have hne : ∀ armedAt useStale serving e, site ≠ .originError armedAt useStale serving e :=
      fun armedAt useStale serving e he => hsite ⟨armedAt, useStale, serving, e, he⟩
    refine iff_of_true (fun d hd => deliver_guarded hne hd) fun hleak => ?_
    cases site with
    | originError armedAt useStale serving e => exact hne armedAt useStale serving e rfl
    | _ => exact hleak

/-- A page stored for the breaker alone at time 1000, fresh for a minute, with a
stale-if-error window of a day. -/
def breakerOnlyPage : Bytes :=
  blobHdrWrite
    { flags := blobfBreakerOnly, status := 200, nheaders := 0, headersLen := 0, bodyLen := 1,
      created := 1000, freshTtl := 60, staleTtl := 240, sieTtl := 86400 }
    (List.replicate 29 48) ++ [33]

/-- A request of `GET /account` without credentials in a header. -/
def accountRequest : Request :=
  { method := .get
    uri := lit ['/', 'a', 'c', 'c', 'o', 'u', 'n', 't']
    args := []
    unparsedUri := lit ['/', 'a', 'c', 'c', 'o', 'u', 'n', 't']
    headersIn := HeadersIn.ofLines [] [] }

/-- A probe of the breaker armed that page at time 1100, the origin answers 500, and the
page goes out as stale on error. -/
theorem deliver_guarded_fails :
    ¬ ∀ (pool : Pool) (now : Time) (r : Request) (copy : Bytes) (site : Site) (d : Delivered),
      deliver pool now r copy site = .done d →
        Guarded r d ∧ (d.reason = .staleBreaker → site.breakerOpen) := by
  intro h
  refine (deliver_guarded_iff ⟨true, true⟩ 1101 accountRequest breakerOnlyPage
    (.originError 1100 useStaleHttp500 false ⟨500, false⟩)).1 (h _ _ _ _ _) ?_
  refine ⟨by decide, by decide, rfl, by decide, by decide, by decide +kernel, rfl⟩

end Http
end CacheTurbo
