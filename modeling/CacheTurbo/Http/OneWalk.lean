/-
# One walk over the response headers

`ngx_http_cache_turbo_response_policy` reads everything it wants to know of a header list in one
pass; `ngx_http_cache_turbo_upstream_ttl` asks for one thing after the other.  What the pass computes
is said here field by field: the lifetime is a ladder of the deltas that each control field gives
(`responsePolicy_ttl`), and the verdict asks every line alone (`responsePolicy_cacheable`).

Within a line the first occurrence of a delta decides, over the lines the first one that is valid.
So a line may be cut at a comma outside quotes, or two lines be joined, where the second part does
not give a delta of the first part another value (`SameFirst`).
-/

import CacheTurbo.Http.RequestCc
import CacheTurbo.Http.Windows

namespace CacheTurbo
namespace Http
namespace OneWalk

open Bytes Policy
open RequestCc (pieces tokenNamed tokenValue tokenDelta ccTokens)

/-! ## What a response says -/

/-- The fields that control a shared cache. -/
def controlFields : List Bytes := [surrogateControl, cdnCacheControl, cacheControl]

/-- A header that is there and has this name. -/
def live (name : Bytes) (h : Header) : Bool := h.hash != 0 && h.named name

/-- **A control line that forbids a store**: it has a `no-store`, `no-cache` or `private`, or its
first `max-age` or its first `s-maxage` is zero. -/
def Forbids (v : Bytes) : Prop :=
  (∃ t ∈ pieces v, ∃ name ∈ [noStore, noCache, privateName], tokenNamed name t = true) ∨
    ∃ name ∈ [maxAge, sMaxage], ∃ t, (ccTokens name v).head? = some t ∧ tokenDelta t = 0

/-- A reason to refuse a response. -/
inductive Refusal (conf : PolicyConf) (authorization : Bool) (headers : List Header) : Prop
  | authorization (h : authorization = true)
  | setCookie (h : Header) (hmem : h ∈ headers) (hlive : live setCookieName h = true)
      (hkept : (setCookieRelaxAllowed conf && setCookieIgnorable conf h) = false)
  | control (h : Header) (hmem : h ∈ headers) (field : Bytes) (hfield : field ∈ controlFields)
      (hlive : live field h = true) (hforbids : Forbids h.value)

/-- The required header is none of those that the pass reads behind it. -/
def NoCollision (conf : PolicyConf) : Prop :=
  ∀ name ∈ setCookieName :: controlFields, eqFold conf.requireHeader name = false

/-! ## The directives of a line -/

theorem ccToken_eq (name v : Bytes) :
    ccToken name v = ((pieces v).find? (tokenNamed name)).map fun t =>
      (t.dropWhile (· ≠ 61)).tail := rfl

theorem ccHas_iff (name v : Bytes) :
    ccHas name v = true ↔ ∃ t ∈ pieces v, tokenNamed name t = true := by
  rw [ccHas, ccToken_eq, Option.isSome_map, List.find?_isSome]

theorem ccTokens_head (name v : Bytes) :
    (ccTokens name v).head? = ((pieces v).find? (tokenNamed name)).map tokenValue := by
  rw [ccTokens, List.head?_map, List.head?_filter]
  rfl

/-- **The delta of a line is that of the first directive with the name.** -/
theorem ccDelta_eq (name v : Bytes) :
    ccDelta name v = match (ccTokens name v).head? with
      | none => -1
      | some t => tokenDelta t := by
  rw [ccTokens_head, ccDelta, ccToken_eq]
  cases (pieces v).find? (tokenNamed name) with
  | none => rfl
  | some t =>
    rw [Option.map_some, Option.map_some]
    dsimp only
    by_cases hvalued : (61 : UInt8) ∈ t
    · rw [tokenValue, if_pos hvalued]
      show (if _ then _ else _) = ccParseDelta _
      split_ifs with hnil
      · rw [hnil]
        rfl
      · rfl
    · have hbare : t.dropWhile (fun c => decide (c ≠ 61)) = [] :=
        List.dropWhile_eq_nil_iff.2 fun c hc => decide_eq_true fun heq => hvalued (heq ▸ hc)
      rw [tokenValue, if_neg hvalued, hbare]
      rfl

theorem ccDigits_range {n : Time} (hn : 0 ≤ n) (s : Bytes) : ccDigits n s = -1 ∨ 0 ≤ ccDigits n s := by
  induction s generalizing n with
  | nil => exact Or.inr hn
  | cons c s ih =>
    rw [ccDigits]
    dsimp only
    split_ifs
    · exact Or.inl rfl
    · exact ih (by decide)
    · exact ih (Int.add_nonneg (Int.mul_nonneg hn (by decide)) (Int.natCast_nonneg _))

/-- A delta that is not valid is `-1`. -/
theorem ccDelta_range (name v : Bytes) : ccDelta name v = -1 ∨ 0 ≤ ccDelta name v := by
  have hparse : ∀ q, ccParseDelta q = -1 ∨ 0 ≤ ccParseDelta q := by
    intro q
    unfold ccParseDelta
    split_ifs
    · exact Or.inl rfl
    · exact ccDigits_range (le_refl 0) _
  unfold ccDelta
  split
  · exact Or.inl rfl
  · split_ifs
    · exact Or.inl rfl
    · exact hparse _

/-- A line without the directive has no delta for it. -/
theorem ccDelta_of_not_has {name v : Bytes} (h : ¬ ccHas name v = true) : ccDelta name v = -1 := by
  have htoken : ccToken name v = none := by
    rw [ccHas, Option.isSome_iff_ne_none, not_not] at h
    exact h
  rw [ccDelta, htoken]

theorem forbids_iff (v : Bytes) : ccRefuses v = true ↔ Forbids v := by
  have hzero : ∀ name, ccDelta name v = 0 ↔
      ∃ t, (ccTokens name v).head? = some t ∧ tokenDelta t = 0 := by
    intro name
    rw [ccDelta_eq]
    cases (ccTokens name v).head? with
    | none => simp
    | some t => simp
  rw [ccRefuses, Bool.or_eq_true, Bool.or_eq_true, Bool.or_eq_true, Bool.or_eq_true, beq_iff_eq,
    beq_iff_eq, hzero, hzero, ccHas_iff, ccHas_iff, ccHas_iff, Forbids]
  simp only [List.exists_mem_cons_iff, List.not_mem_nil, false_and, exists_false, or_false,
    and_or_left, exists_or, or_assoc]

/-! ## One header -/

/-- A line that refuses the response. -/
def refuses (conf : PolicyConf) (h : Header) : Bool :=
  (live setCookieName h && !(setCookieRelaxAllowed conf && setCookieIgnorable conf h)) ||
    (controlFields.any (fun field => live field h) && ccRefuses h.value)

/-- What one header does to the pass. -/
structure Step (conf : PolicyConf) (h : Header) (p q : PolicyPass) : Prop where
  scMax : q.scMax = if live surrogateControl h then firstDelta p.scMax maxAge h.value else p.scMax
  cdnSmax : q.cdnSmax = if live cdnCacheControl h then firstDelta p.cdnSmax sMaxage h.value
    else p.cdnSmax
  cdnMax : q.cdnMax = if live cdnCacheControl h then firstDelta p.cdnMax maxAge h.value
    else p.cdnMax
  ccSmax : q.ccSmax = if live cacheControl h then firstDelta p.ccSmax sMaxage h.value else p.ccSmax
  ccMax : q.ccMax = if live cacheControl h then firstDelta p.ccMax maxAge h.value else p.ccMax
  expires : q.expires = if p.expires = [] ∧ live expiresName h = true then h.value else p.expires
  cacheable : q.out.cacheable = (p.out.cacheable && !refuses conf h)

theorem ccRefuse_cacheable (v : Bytes) (out : ResponsePolicy) :
    (ccRefuse v out).cacheable = (out.cacheable && !ccRefuses v) := by
  unfold ccRefuse
  cases hout : out.cacheable <;> cases hv : ccRefuses v <;> simp [hout]

theorem policySetCookie_cacheable (conf : PolicyConf) (p : PolicyPass) (h : Header) :
    (policySetCookie conf p h).out.cacheable =
      (p.out.cacheable && (setCookieRelaxAllowed conf && setCookieIgnorable conf h)) := by
  unfold policySetCookie
  cases hout : p.out.cacheable <;>
    cases hkept : setCookieRelaxAllowed conf && setCookieIgnorable conf h <;> simp [hout]

/-- A live line has one name. -/
theorem live_of_ne {name other : Bytes} (hne : eqFold name other = false) {h : Header}
    (hlive : live name h = true) : live other h = false := by
  rw [live, named_of_ne hne ((Bool.and_eq_true _ _).mp hlive).2, Bool.and_false]

/-- A header without a name is none of these. -/
theorem live_of_dead {h : Header} (hdead : h.hash = 0 ∨ h.key = []) {name : Bytes}
    (hname : name ≠ []) : live name h = false := by
  rcases hdead with hhash | hkey
  · rw [live, hhash]
    rfl
  · have hlen : (0 == name.length) = false :=
      beq_false_of_ne (Nat.ne_of_lt (List.length_pos_of_ne_nil hname))
    rw [live, Header.named, hkey, List.length_nil, hlen, Bool.false_and, Bool.and_false]

theorem policyHeader_step {conf : PolicyConf} (hno : NoCollision conf)
    (hcc : conf.ignoreCc = false) (p : PolicyPass) (h : Header) :
    Step conf h p (policyHeader conf p h) := by
  by_cases hdead : h.hash = 0 ∨ h.key = []
  · have hoff : ∀ name ≠ ([] : Bytes), live name h = false := fun name => live_of_dead hdead
    have hsame : policyHeader conf p h = p := if_pos hdead
    rw [hsame]
    constructor <;>
      simp [hoff, refuses, controlFields, surrogateControl, cdnCacheControl, cacheControl,
        expiresName, setCookieName, lit]
  obtain ⟨hhash, -⟩ := not_or.1 hdead
  have hlive : ∀ name, live name h = h.named name := by
    intro name
    rw [live, bne_iff_ne.2 hhash, Bool.true_and]
  -- the update of `Expires` comes first and touches nothing else
  obtain ⟨q, hq, hexpires, hscMax, hcdnSmax, hcdnMax, hccSmax, hccMax, hout⟩ : ∃ q : PolicyPass,
      (if p.expires = [] ∧ h.named expiresName then { p with expires := h.value } else p) = q ∧
      q.expires = (if p.expires = [] ∧ live expiresName h = true then h.value else p.expires) ∧
      q.scMax = p.scMax ∧ q.cdnSmax = p.cdnSmax ∧ q.cdnMax = p.cdnMax ∧ q.ccSmax = p.ccSmax ∧
      q.ccMax = p.ccMax ∧ q.out = p.out := by
    refine ⟨_, rfl, ?_⟩
    rw [hlive]
    split_ifs <;> exact ⟨rfl, rfl, rfl, rfl, rfl, rfl, rfl⟩
  have hpass : policyHeader conf p h =
      if conf.requireHeader ≠ [] ∧ h.named conf.requireHeader then policyRequire q h
      else if h.named setCookieName then policySetCookie conf q h
      else if h.named surrogateControl then policySurrogateControl q h.value
      else if h.named cdnCacheControl then policyCdnControl q h.value
      else if h.named cacheControl then policyCacheControl q h.value
      else q := by
    rw [policyHeader, if_neg hdead, hq]
    simp only [hcc, Bool.false_eq_true, if_false]
  rw [hpass]
  have hother : ∀ {name other : Bytes}, eqFold name other = false → h.named name = true →
      h.named other = false := fun hne hname => named_of_ne hne hname
  by_cases hreq : conf.requireHeader ≠ [] ∧ h.named conf.requireHeader = true
  · have hnone : ∀ name ∈ setCookieName :: controlFields, h.named name = false := fun name hmem =>
      hother (hno name hmem) hreq.2
    simp only [List.forall_mem_cons, controlFields] at hnone
    obtain ⟨hset, hsc, hcdn, hccf, -⟩ := hnone
    rw [if_pos hreq]
    constructor <;>
      simp [hlive, hset, hsc, hcdn, hccf, refuses, controlFields, policyRequire, hexpires, hscMax,
        hcdnSmax, hcdnMax, hccSmax, hccMax, hout]
  rw [if_neg hreq]
  by_cases hset : h.named setCookieName = true
  · have hsc : h.named surrogateControl = false := hother (by decide) hset
    have hcdn : h.named cdnCacheControl = false := hother (by decide) hset
    have hccf : h.named cacheControl = false := hother (by decide) hset
    have hkeeps : policySetCookie conf q h =
        { q with out := (policySetCookie conf q h).out } := by
      unfold policySetCookie
      split_ifs <;> rfl
    rw [if_pos hset, hkeeps]
    constructor <;>
      simp [hlive, hset, hsc, hcdn, hccf, refuses, controlFields, policySetCookie_cacheable,
        hexpires, hscMax, hcdnSmax, hcdnMax, hccSmax, hccMax, hout]
  rw [if_neg hset]
  rw [Bool.not_eq_true] at hset
  by_cases hsc : h.named surrogateControl = true
  · have hcdn : h.named cdnCacheControl = false := hother (by decide) hsc
    have hccf : h.named cacheControl = false := hother (by decide) hsc
    rw [if_pos hsc]
    constructor <;>
      simp [hlive, hset, hsc, hcdn, hccf, refuses, controlFields, policySurrogateControl,
        ccRefuse_cacheable, hexpires, hscMax, hcdnSmax, hcdnMax, hccSmax, hccMax, hout]
  rw [if_neg hsc]
  rw [Bool.not_eq_true] at hsc
  by_cases hcdn : h.named cdnCacheControl = true
  · have hccf : h.named cacheControl = false := hother (by decide) hcdn
    rw [if_pos hcdn]
    constructor <;>
      simp [hlive, hset, hsc, hcdn, hccf, refuses, controlFields, policyCdnControl,
        ccRefuse_cacheable, hexpires, hscMax, hcdnSmax, hcdnMax, hccSmax, hccMax, hout]
  rw [if_neg hcdn]
  rw [Bool.not_eq_true] at hcdn
  by_cases hccf : h.named cacheControl = true
  · rw [if_pos hccf]
    constructor <;>
      simp [hlive, hset, hsc, hcdn, hccf, refuses, controlFields, policyCacheControl,
        ccRefuse_cacheable, hexpires, hscMax, hcdnSmax, hcdnMax, hccSmax, hccMax, hout]
  rw [if_neg hccf]
  rw [Bool.not_eq_true] at hccf
  constructor <;>
    simp [hlive, hset, hsc, hcdn, hccf, refuses, controlFields, hexpires, hscMax, hcdnSmax,
      hcdnMax, hccSmax, hccMax, hout]

/-! ## The whole pass -/

/-- The first delta over the lines of a field, after `t`. -/
def slot (field name : Bytes) (t : Time) (headers : List Header) : Time :=
  headers.foldl (fun t h => if live field h then firstDelta t name h.value else t) t

/-- The first `Expires` that is not empty, after `e`. -/
def firstExpires (e : Bytes) (headers : List Header) : Bytes :=
  headers.foldl (fun e h => if e = [] ∧ live expiresName h = true then h.value else e) e

theorem slot_of_nonneg {t : Time} (ht : 0 ≤ t) (field name : Bytes) (headers : List Header) :
    slot field name t headers = t := by
  induction headers with
  | nil => rfl
  | cons h headers ih =>
    have hsame : (if live field h then firstDelta t name h.value else t) = t := by
      rw [firstDelta, if_neg (Int.not_lt.2 ht)]
      split_ifs <;> rfl
    rw [slot, List.foldl_cons, hsame]
    exact ih

/-- A slot of the pass is the search of the lookup. -/
theorem slot_eq (field name : Bytes) (headers : List Header) :
    slot field name (-1) headers = ccDeltaAll headers field name := by
  induction headers with
  | nil => rfl
  | cons h headers ih =>
    rw [slot, List.foldl_cons, ccDeltaAll]
    by_cases hlive : live field h = true
    · obtain ⟨hhash, hnamed⟩ := (Bool.and_eq_true _ _).mp hlive
      rw [if_pos hlive, firstDelta, if_pos (by decide)]
      by_cases hvalid : 0 ≤ ccDelta name h.value
      · rw [if_pos ⟨bne_iff_ne.1 hhash, hnamed, hvalid⟩]
        exact slot_of_nonneg hvalid field name headers
      · rw [if_neg fun hall => hvalid hall.2.2,
          (ccDelta_range name h.value).resolve_right hvalid]
        exact ih
    · rw [if_neg hlive, if_neg fun hall => hlive ((Bool.and_eq_true _ _).mpr
        ⟨bne_iff_ne.2 hall.1, hall.2.1⟩)]
      exact ih

theorem firstExpires_of_ne {e : Bytes} (he : e ≠ []) (headers : List Header) :
    firstExpires e headers = e := by
  induction headers with
  | nil => rfl
  | cons h headers ih =>
    rw [firstExpires, List.foldl_cons, if_neg fun hall => he hall.1]
    exact ih

/-- An `Expires` with nothing in it has none behind it that has. -/
def NoExpiresBehindEmpty (headers : List Header) : Prop :=
  headerFind headers expiresName = [] →
    ∀ h ∈ headers, live expiresName h = true → h.value = []

theorem firstExpires_eq_nil {headers : List Header}
    (hall : ∀ h ∈ headers, live expiresName h = true → h.value = []) :
    firstExpires [] headers = [] := by
  induction headers with
  | nil => rfl
  | cons h headers ih =>
    obtain ⟨hh, hheaders⟩ := List.forall_mem_cons.1 hall
    have hsame : (if ([] : Bytes) = [] ∧ live expiresName h = true then h.value else []) = [] := by
      split_ifs with hlive
      · exact hh hlive.2
      · rfl
    rw [firstExpires, List.foldl_cons, hsame]
    exact ih hheaders

theorem live_eq (name : Bytes) (h : Header) :
    (decide (h.hash ≠ 0) && h.named name) = live name h := by
  by_cases hhash : h.hash = 0 <;> simp [live, hhash]

theorem firstExpires_eq {headers : List Header} (hgiven : NoExpiresBehindEmpty headers) :
    firstExpires [] headers = headerFind headers expiresName := by
  by_cases hnil : headerFind headers expiresName = []
  · rw [hnil, firstExpires_eq_nil (hgiven hnil)]
  clear hgiven
  induction headers with
  | nil => rfl
  | cons h headers ih =>
    rw [headerFind, List.find?_cons] at hnil ⊢
    rw [firstExpires, List.foldl_cons]
    by_cases hlive : live expiresName h = true
    · have hfound := (live_eq expiresName h).trans hlive
      rw [hfound] at hnil ⊢
      rw [if_pos ⟨rfl, hlive⟩]
      exact firstExpires_of_ne hnil headers
    · have hfound := (live_eq expiresName h).trans (Bool.eq_false_iff.2 hlive)
      rw [hfound] at hnil ⊢
      rw [if_neg fun hall => hlive hall.2]
      exact ih hnil

theorem any_fold {α : Type} (p : α → Bool) (xs : List α) (b : Bool) :
    xs.foldl (fun b x => b && !p x) b = (b && !xs.any p) := by
  induction xs generalizing b with
  | nil => rw [List.foldl_nil, List.any_nil, Bool.not_false, Bool.and_true]
  | cons x xs ih => rw [List.foldl_cons, ih, List.any_cons, Bool.not_or, Bool.and_assoc]

theorem policyPass_slots {conf : PolicyConf} (hno : NoCollision conf)
    (hcc : conf.ignoreCc = false) (headers : List Header) (p : PolicyPass) :
    let q := headers.foldl (policyHeader conf) p
    q.scMax = slot surrogateControl maxAge p.scMax headers ∧
      q.cdnSmax = slot cdnCacheControl sMaxage p.cdnSmax headers ∧
      q.cdnMax = slot cdnCacheControl maxAge p.cdnMax headers ∧
      q.ccSmax = slot cacheControl sMaxage p.ccSmax headers ∧
      q.ccMax = slot cacheControl maxAge p.ccMax headers ∧
      q.expires = firstExpires p.expires headers := by
  have hstep := policyHeader_step hno hcc
  exact ⟨(List.foldl_hom PolicyPass.scMax fun p h => (hstep p h).scMax.symm).symm,
    (List.foldl_hom PolicyPass.cdnSmax fun p h => (hstep p h).cdnSmax.symm).symm,
    (List.foldl_hom PolicyPass.cdnMax fun p h => (hstep p h).cdnMax.symm).symm,
    (List.foldl_hom PolicyPass.ccSmax fun p h => (hstep p h).ccSmax.symm).symm,
    (List.foldl_hom PolicyPass.ccMax fun p h => (hstep p h).ccMax.symm).symm,
    (List.foldl_hom PolicyPass.expires fun p h => (hstep p h).expires.symm).symm⟩

/-- The lifetime of a header list, with what its `Expires` leaves. -/
def ladder (headers : List Header) (expires : Time) : Time :=
  if ccDeltaAll headers surrogateControl maxAge ≥ 0 then
    ccDeltaAll headers surrogateControl maxAge
  else if ccDeltaAll headers cdnCacheControl sMaxage ≥ 0 then
    ccDeltaAll headers cdnCacheControl sMaxage
  else if ccDeltaAll headers cdnCacheControl maxAge ≥ 0 then
    ccDeltaAll headers cdnCacheControl maxAge
  else if ccDeltaAll headers cacheControl sMaxage ≥ 0 then
    ccDeltaAll headers cacheControl sMaxage
  else if ccDeltaAll headers cacheControl maxAge ≥ 0 then ccDeltaAll headers cacheControl maxAge
  else expires

/-- **The lifetime that the pass computes.** -/
theorem responsePolicy_ttl {conf : PolicyConf} (hno : NoCollision conf)
    (hcc : conf.ignoreCc = false) (http : TimeParser) (now : Time) (authorization : Bool)
    (headers : List Header) : (responsePolicy http now conf authorization headers).upstreamTtl =
      ladder headers (expiresTtl http (firstExpires [] headers) now) := by
  obtain ⟨hsc, hcdnS, hcdn, hccS, hccM, hexpires⟩ :=
    policyPass_slots hno hcc headers (policyInit conf authorization)
  simp only [policyInit, slot_eq] at hsc hcdnS hcdn hccS hccM hexpires
  simp only [responsePolicy, policyFinish, policyInit, hsc, hcdnS, hcdn, hccS, hccM, hexpires,
    ladder]

/-- **Every line is asked alone.** -/
theorem responsePolicy_cacheable {conf : PolicyConf} (hno : NoCollision conf)
    (hcc : conf.ignoreCc = false) (http : TimeParser) (now : Time) (authorization : Bool)
    (headers : List Header) : (responsePolicy http now conf authorization headers).cacheable =
      (!authorization && !headers.any (refuses conf)) := by
  have hfold : (headers.foldl (policyHeader conf) (policyInit conf authorization)).out.cacheable =
      headers.foldl (fun b h => b && !refuses conf h) (!authorization) :=
    (List.foldl_hom (fun p : PolicyPass => p.out.cacheable) fun p h =>
      (policyHeader_step hno hcc p h).cacheable.symm).symm
  rw [any_fold] at hfold
  exact hfold

theorem refuses_iff (conf : PolicyConf) (h : Header) : refuses conf h = true ↔
    (live setCookieName h = true ∧
      (setCookieRelaxAllowed conf && setCookieIgnorable conf h) = false) ∨
    ∃ field ∈ controlFields, live field h = true ∧ Forbids h.value := by
  rw [refuses, Bool.or_eq_true, Bool.and_eq_true, Bool.and_eq_true, Bool.not_eq_true',
    List.any_eq_true, forbids_iff]
  refine or_congr_right ⟨?_, ?_⟩
  · rintro ⟨⟨field, hfield, hlive⟩, hforbids⟩
    exact ⟨field, hfield, hlive, hforbids⟩
  · rintro ⟨field, hfield, hlive, hforbids⟩
    exact ⟨⟨field, hfield, hlive⟩, hforbids⟩

/-- **What a refusal is.** -/
theorem responsePolicy_refused_iff {conf : PolicyConf} (hno : NoCollision conf)
    (hcc : conf.ignoreCc = false) (http : TimeParser) (now : Time) (authorization : Bool)
    (headers : List Header) :
    (responsePolicy http now conf authorization headers).cacheable = false ↔
      Refusal conf authorization headers := by
  rw [responsePolicy_cacheable hno hcc, Bool.and_eq_false_iff, Bool.not_eq_false',
    Bool.not_eq_false', List.any_eq_true]
  constructor
  · rintro (hauth | ⟨h, hmem, hrefuses⟩)
    · exact .authorization hauth
    · rcases (refuses_iff conf h).1 hrefuses with ⟨hlive, hkept⟩ | ⟨field, hfield, hlive, hforbids⟩
      · exact .setCookie h hmem hlive hkept
      · exact .control h hmem field hfield hlive hforbids
  · intro hrefusal
    cases hrefusal with
    | authorization hauth => exact Or.inl hauth
    | setCookie h hmem hlive hkept =>
      exact Or.inr ⟨h, hmem, (refuses_iff conf h).2 (Or.inl ⟨hlive, hkept⟩)⟩
    | control h hmem field hfield hlive hforbids =>
      exact Or.inr ⟨h, hmem, (refuses_iff conf h).2 (Or.inr ⟨field, hfield, hlive, hforbids⟩)⟩

/-! ## Lines that are joined -/

/-- `ab` is the line `a`, a comma and the line `b` of one field.  The quotes of `a` are closed, and
`b` gives no valid delta to a `max-age` or `s-maxage` of `a` that is not the first. -/
structure Joins (field : Bytes) (a b ab : Header) : Prop where
  first : live field a = true
  second : live field b = true
  joined : live field ab = true
  value : ∃ blanks : Bytes, (∀ c ∈ blanks, isLws c = true) ∧
    ab.value = a.value ++ 44 :: (blanks ++ b.value)
  closed : RequestCc.Balanced a.value
  sameFirst : ∀ name ∈ [maxAge, sMaxage], ccHas name a.value = true →
    ccDelta name b.value < 0 ∨ ccDelta name b.value = ccDelta name a.value

namespace Joins

variable {field : Bytes} {a b ab : Header} (hjoins : Joins field a b ab)

include hjoins

theorem pieces_eq : pieces ab.value = pieces a.value ++ pieces b.value := by
  obtain ⟨blanks, hblanks, hvalue⟩ := hjoins.value
  rw [hvalue, RequestCc.pieces_comma hjoins.closed, RequestCc.pieces_lead hblanks]

theorem ccHas_eq (name : Bytes) : ccHas name ab.value = (ccHas name a.value || ccHas name b.value) := by
  rw [Bool.eq_iff_iff, Bool.or_eq_true, ccHas_iff, ccHas_iff, ccHas_iff, hjoins.pieces_eq]
  simp only [List.mem_append, or_and_right, exists_or]

theorem ccDelta_eq (name : Bytes) : ccDelta name ab.value =
    if ccHas name a.value = true then ccDelta name a.value else ccDelta name b.value := by
  have hfind : ccToken name ab.value = (ccToken name a.value).or (ccToken name b.value) := by
    rw [ccToken_eq, ccToken_eq, ccToken_eq, hjoins.pieces_eq, List.find?_append, Option.map_or]
  rw [ccDelta, hfind, ccHas]
  cases htoken : ccToken name a.value with
  | none =>
    rw [Option.none_or, Option.isSome_none, if_neg Bool.false_ne_true]
    rfl
  | some q =>
    rw [Option.some_or, Option.isSome_some, if_pos rfl, ccDelta, htoken]

theorem firstDelta_eq {name : Bytes} (hname : name ∈ [maxAge, sMaxage]) (t : Time) :
    firstDelta t name ab.value = firstDelta (firstDelta t name a.value) name b.value := by
  unfold firstDelta
  by_cases ht : t < 0
  · rw [if_pos ht, if_pos ht, hjoins.ccDelta_eq]
    by_cases hhas : ccHas name a.value = true
    · rw [if_pos hhas]
      by_cases hvalid : ccDelta name a.value < 0
      · have hinvalid := (ccDelta_range name a.value).resolve_right (Int.not_le.2 hvalid)
        have hsecond : ccDelta name b.value = -1 := by
          rcases hjoins.sameFirst name hname hhas with hneg | hsame
          · exact (ccDelta_range name b.value).resolve_right (Int.not_le.2 hneg)
          · exact hsame.trans hinvalid
        rw [if_pos hvalid, hinvalid, hsecond]
      · rw [if_neg hvalid]
    · rw [if_neg hhas, ccDelta_of_not_has hhas, if_pos (by decide)]
  · rw [if_neg ht, if_neg ht, if_neg ht]

theorem zero_iff {name : Bytes} (hname : name ∈ [maxAge, sMaxage]) :
    ccDelta name ab.value = 0 ↔ ccDelta name a.value = 0 ∨ ccDelta name b.value = 0 := by
  rw [hjoins.ccDelta_eq]
  by_cases hhas : ccHas name a.value = true
  · rw [if_pos hhas]
    refine ⟨Or.inl, fun h => h.elim id fun hzero => ?_⟩
    rcases hjoins.sameFirst name hname hhas with hneg | hsame
    · exact absurd hzero (Int.ne_of_lt hneg)
    · rw [← hsame, hzero]
  · rw [if_neg hhas, ccDelta_of_not_has hhas]
    exact ⟨Or.inr, fun h => h.resolve_left (by decide)⟩

theorem ccRefuses_eq : ccRefuses ab.value = (ccRefuses a.value || ccRefuses b.value) := by
  have hzero : ∀ name ∈ [maxAge, sMaxage], (ccDelta name ab.value == 0) =
      (ccDelta name a.value == 0 || ccDelta name b.value == 0) := by
    intro name hname
    rw [Bool.eq_iff_iff, Bool.or_eq_true, beq_iff_eq, beq_iff_eq, beq_iff_eq]
    exact hjoins.zero_iff hname
  obtain ⟨hmax, hsmax, -⟩ := List.forall_mem_cons.1 hzero |>.imp_right List.forall_mem_cons.1
  rw [ccRefuses, ccRefuses, ccRefuses, hjoins.ccHas_eq, hjoins.ccHas_eq, hjoins.ccHas_eq, hmax,
    hsmax]
  ac_rfl

/-- None of the three lines is one of another name. -/
theorem live_other {other : Bytes} (hne : eqFold field other = false) :
    live other a = false ∧ live other b = false ∧ live other ab = false :=
  ⟨live_of_ne hne hjoins.first, live_of_ne hne hjoins.second, live_of_ne hne hjoins.joined⟩

theorem refuses_eq (conf : PolicyConf) (hfield : field ∈ controlFields) :
    refuses conf ab = (refuses conf a || refuses conf b) := by
  have hcookie : eqFold field setCookieName = false := by
    have hall : ∀ field ∈ controlFields, eqFold field setCookieName = false := by decide
    exact hall field hfield
  have hany : ∀ {h : Header}, live field h = true →
      controlFields.any (fun field => live field h) = true := fun hlive =>
    List.any_eq_true.2 ⟨field, hfield, hlive⟩
  obtain ⟨ha, hb, hab⟩ := hjoins.live_other hcookie
  simp only [refuses, ha, hb, hab, hany hjoins.first, hany hjoins.second, hany hjoins.joined,
    Bool.false_and, Bool.false_or, Bool.true_and, hjoins.ccRefuses_eq]

end Joins

theorem slot_skip {field : Bytes} {headers : List Header}
    (hskip : ∀ h ∈ headers, live field h = false) (name : Bytes) (t : Time) :
    slot field name t headers = t := by
  induction headers with
  | nil => rfl
  | cons h headers ih =>
    obtain ⟨hh, hheaders⟩ := List.forall_mem_cons.1 hskip
    rw [slot, List.foldl_cons, hh, if_neg Bool.false_ne_true]
    exact ih hheaders

theorem slot_append (field name : Bytes) (t : Time) (xs ys : List Header) :
    slot field name t (xs ++ ys) = slot field name (slot field name t xs) ys :=
  List.foldl_append

theorem slot_cons (field name : Bytes) (t : Time) (h : Header) (headers : List Header) :
    slot field name t (h :: headers) =
      slot field name (if live field h then firstDelta t name h.value else t) headers := rfl

theorem firstExpires_cons_skip {h : Header} (hskip : live expiresName h = false) (e : Bytes)
    (headers : List Header) : firstExpires e (h :: headers) = firstExpires e headers := by
  rw [firstExpires, List.foldl_cons, if_neg fun hall => Bool.false_ne_true (hskip ▸ hall.2)]
  rfl

namespace Joins

variable {field : Bytes} {a b ab : Header} (hjoins : Joins field a b ab)

include hjoins

/-- The slots do not see it. -/
theorem slot_eq {other name : Bytes} (hname : name ∈ [maxAge, sMaxage])
    (hother : other = field ∨ eqFold field other = false) (pre post : List Header)
    {mid : List Header} (hmid : ∀ h ∈ mid, live field h = false) (t : Time) :
    slot other name t (pre ++ ab :: (mid ++ post)) =
      slot other name t (pre ++ a :: (mid ++ b :: post)) := by
  simp only [slot_append, slot_cons]
  rcases hother with rfl | hne
  · rw [slot_skip hmid, slot_skip hmid, if_pos hjoins.first, if_pos hjoins.second,
      if_pos hjoins.joined, hjoins.firstDelta_eq hname]
  · obtain ⟨ha, hb, hab⟩ := hjoins.live_other hne
    rw [ha, hb, hab]
    rfl

theorem firstExpires_eq (hfield : field ∈ controlFields) (pre mid post : List Header) (e : Bytes) :
    firstExpires e (pre ++ ab :: (mid ++ post)) =
      firstExpires e (pre ++ a :: (mid ++ b :: post)) := by
  have hne : eqFold field expiresName = false := by
    have hall : ∀ field ∈ controlFields, eqFold field expiresName = false := by decide
    exact hall field hfield
  obtain ⟨ha, hb, hab⟩ := hjoins.live_other hne
  rw [firstExpires, firstExpires, List.foldl_append, List.foldl_append]
  change firstExpires _ (ab :: (mid ++ post)) = firstExpires _ (a :: (mid ++ b :: post))
  rw [firstExpires_cons_skip hab, firstExpires_cons_skip ha, firstExpires, firstExpires,
    List.foldl_append, List.foldl_append]
  exact (firstExpires_cons_skip hb _ post).symm

end Joins

/-- A `Cache-Control` line. -/
def controlLine (v : Bytes) : Header := ⟨1, cacheControl, v⟩

/-- `max-age=600`. -/
def tenMinutes : Bytes := maxAge ++ lit ['=', '6', '0', '0']

/-- `max-age=0`. -/
def noAge : Bytes := maxAge ++ lit ['=', '0']

theorem plainPolicy_noCollision : NoCollision plainPolicy := by
  unfold NoCollision
  decide

/-- `public`, then `max-age=600`, which is not the first `max-age` of the two. -/
theorem joins_public : Joins cacheControl (controlLine publicName) (controlLine tenMinutes)
    (controlLine (publicName ++ 44 :: 32 :: tenMinutes)) where
  first := by decide
  second := by decide
  joined := by decide
  value := ⟨[32], by simp [isLws], rfl⟩
  closed := by
    unfold RequestCc.Balanced
    decide
  sameFirst := by decide

end OneWalk
end Http
end CacheTurbo
