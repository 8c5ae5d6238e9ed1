/-
# The headers that take the place of an error

`ngx_http_cache_turbo_sie_rewrite` clears a part of `r->headers_out` and restores a snapshot
into what is left (`ngx_http_cache_turbo_module.c`).  Here `headers_out` is the whole
`ngx_http_headers_out_t`: the list, and the typed fields that nginx fills from the headers of
an origin response.

A restore writes the same fields whatever it finds, so two rewrites of one snapshot differ
only in the fields that neither the clearing nor the restore touches (`restoreInto_overlay`).
`sie_headers_iff` says which these are: the validators and their time, `Location`,
`Cache-Control`, `Expires`, `Server`, the ranges, and for a snapshot without a content type
the charset.
-/

import CacheTurbo.Http.Restore
import CacheTurbo.Http.FreshenSpec

namespace CacheTurbo
namespace Http

open Bytes Blob

/-! ## The response -/

/-- `ngx_http_headers_out_t`, beside the two bits of the request in `HeadersOut`. -/
structure ResponseOut extends HeadersOut where
  trailers : List Header
  statusLine : Bytes
  server : Option Header
  date : Option Header
  contentLength : Option Header
  contentEncoding : Option Header
  location : Option Header
  refresh : Option Header
  lastModified : Option Header
  contentRange : Option Header
  acceptRanges : Option Header
  wwwAuthenticate : Option Header
  expires : Option Header
  etag : Option Header
  cacheControl : List Header
  link : List Header
  overrideCharset : Option Bytes
  contentTypeLowcase : Option Bytes
  contentTypeHash : ℕ
  contentOffset : ℤ
  dateTime : Time
  lastModifiedTime : Time
  deriving DecidableEq, Repr

/-- `headers_out` of a request that has had no response. -/
def freshOut : ResponseOut where
  status := 0
  contentLengthN := none
  contentType := []
  contentTypeLen := 0
  charset := []
  headers := []
  allowRanges := false
  headerOnly := false
  trailers := []
  statusLine := []
  server := none
  date := none
  contentLength := none
  contentEncoding := none
  location := none
  refresh := none
  lastModified := none
  contentRange := none
  acceptRanges := none
  wwwAuthenticate := none
  expires := none
  etag := none
  cacheControl := []
  link := []
  overrideCharset := none
  contentTypeLowcase := none
  contentTypeHash := 0
  contentOffset := 0
  dateTime := 0
  lastModifiedTime := -1

/-- What the next header filter is handed of it: all but the bits of the request. -/
def ResponseOut.handed (out : ResponseOut) : ResponseOut :=
  { out with allowRanges := false, headerOnly := false }

/-! ## The restore -/

/-- A pair that goes through `ngx_http_cache_turbo_restore_content_type`. -/
def setsType (conf : AdmitConf) (vetted : Bool) (h : Href) : Bool :=
  (vetted || headerAdmissible conf h.name h.val) && h.role == hroleContentType

/-- A snapshot that brings its own content type. -/
def restoresType (conf : AdmitConf) (v : ValidBlob) : Bool :=
  v.refs.any (setsType conf (hasFlag v.hdr.flags blobfHdrsVetted))

/-- What a restore leaves: `headers_out`, where the body begins in the blob, and its length. -/
structure Restoration where
  out : ResponseOut
  body : ℕ
  bodyLen : ℕ
  deriving DecidableEq, Repr

/-- `ngx_http_cache_turbo_restore_response` into `out`, for a copy that is served stale. -/
def restoreInto (env : RestoreEnv) (now : Time) (r : Request) (copy : Bytes) (xcache : ServeReason)
    (out : ResponseOut) : Option Restoration :=
  (blobValidate now copy).bind fun v =>
    -- the prologue
    let base : HeadersOut :=
      { out.toHeadersOut with status := v.hdr.status, contentLengthN := some v.hdr.bodyLen }
    let s := restoreResponseHeaders env.conf v.hdr.flags v.refs base
    (restoreContentEncoding v.hdr.flags s.out).map fun base =>
      let date := (copy.drop blobDateOff).take blobDateLen
      let fin := restoreResponseFinalize env now r v.hdr date true xcache s.etag s.lastmod base
      { out :=
          { out with
            toHeadersOut := fin.1
            contentTypeLowcase :=
              if restoresType env.conf v then none else out.contentTypeLowcase
            contentEncoding :=
              if hasFlag v.hdr.flags blobfOriginEncoded then
                (aeClassName (flagsAeClass v.hdr.flags)).map (⟨1, contentEncodingName, ·⟩)
              else out.contentEncoding
            date := some ⟨1, dateName, date⟩ }
        body := blobHdrWire + v.hdr.headersLen
        bodyLen := fin.2 }

/-- The answer of a routine that restores. -/
inductive RewriteRc
  | declined
  | error
  | rewritten (a : Restoration)
  deriving DecidableEq, Repr

/-- The answer after the restore. -/
def RewriteRc.ofRestore : Option Restoration → RewriteRc
  | some a => .rewritten a
  | none => .error

/-- What was restored, if anything. -/
def RewriteRc.restored : RewriteRc → Option Restoration
  | .rewritten a => some a
  | .declined | .error => none

theorem RewriteRc.of_restored {rc : RewriteRc} {a : Restoration} (h : rc.restored = some a) :
    rc = .rewritten a := by
  cases rc with
  | declined => cases h
  | error => cases h
  | rewritten b => exact congrArg RewriteRc.rewritten (Option.some.inj h)

/-- What `sie_rewrite` drops of an error response. -/
def sieClear (out : ResponseOut) : ResponseOut :=
  { out with
    headers := []
    contentType := []
    contentTypeLen := 0
    contentLengthN := none
    contentLength := none
    contentEncoding := none
    statusLine := [] }

/-- `ngx_http_cache_turbo_sie_rewrite`, where the pool grants what it asks for. -/
def sieRewriteOut (env : RestoreEnv) (now : Time) (r : Request) (snap : Bytes)
    (out : ResponseOut) : RewriteRc :=
  if snap.length ≥ blobHdrWire ∧ requestRefused r (blobFlags snap) then .declined
  else .ofRestore (restoreInto env now r snap .staleIfError (sieClear out))

/-- `ngx_http_cache_turbo_serve` of a copy that it holds no reference on, stale on error, up
to the sending of the header. -/
def serveOut (env : RestoreEnv) (now : Time) (r : Request) (copy : Bytes) : RewriteRc :=
  if copy.length ≥ blobHdrWire ∧
      (breakerOnlyRefused (blobFlags copy) .staleIfError || requestRefused r (blobFlags copy)) then
    .declined
  else .ofRestore (restoreInto env now r copy .staleIfError freshOut)

/-- Into a blank response a restore is the one of `restoreAnswer`. -/
theorem restoreInto_fresh (env : RestoreEnv) (now : Time) (r : Request) (copy : Bytes)
    (xcache : ServeReason) :
    (restoreInto env now r copy xcache freshOut).map
        (fun a => (⟨a.out.toHeadersOut, a.body, a.bodyLen⟩ : Answered)) =
      restoreAnswer env now r copy true xcache := by
  unfold restoreInto restoreAnswer
  cases blobValidate now copy with
  | none => rfl
  | some v =>
    rw [Option.bind_some, Option.bind_some, Option.map_map]
    rfl

/-! ## What a restore finds -/

/-- Other leavings in the fields that a restore may pass by. -/
def HeadersOut.leave (charset : Bytes) (allowRanges headerOnly : Bool) (out : HeadersOut) :
    HeadersOut :=
  { out with charset := charset, allowRanges := allowRanges, headerOnly := headerOnly }

/-- The charset after one turn: that of the content type, or the old one. -/
theorem restoreHeader_leave (conf : AdmitConf) (vetted : Bool) (s : Restored) (h : Href)
    (charset : Bytes) (allowRanges headerOnly : Bool) :
    restoreHeader conf vetted { s with out := s.out.leave charset allowRanges headerOnly } h =
      { restoreHeader conf vetted s h with
        out := (restoreHeader conf vetted s h).out.leave
          (if setsType conf vetted h then (restoreHeader conf vetted s h).out.charset else charset)
          allowRanges headerOnly } := by
  have hadm : (!vetted && !headerAdmissible conf h.name h.val) =
      !(vetted || headerAdmissible conf h.name h.val) := (Bool.not_or _ _).symm
  unfold restoreHeader setsType
  rw [hadm]
  cases hin : vetted || headerAdmissible conf h.name h.val with
  | false => rfl
  | true =>
    simp only [Bool.not_true, Bool.false_eq_true, if_false, Bool.true_and]
    by_cases htype : h.role = hroleContentType
    · rw [if_pos htype, if_pos htype, if_pos (beq_iff_eq.2 htype)]
      unfold restoreContentType
      cases charsetScan 0 h.val with
      | none => rfl
      | some p => rfl
    · have hbeq : (h.role == hroleContentType) = false := beq_eq_false_iff_ne.2 htype
      simp only [if_neg htype, hbeq, Bool.false_eq_true, if_false]
      split_ifs
      all_goals rfl

/-- A pair that is no content type leaves the charset alone. -/
theorem restoreHeader_charset {conf : AdmitConf} {vetted : Bool} {h : Href}
    (hno : setsType conf vetted h = false) (s : Restored) :
    (restoreHeader conf vetted s h).out.charset = s.out.charset := by
  have hadm : (!vetted && !headerAdmissible conf h.name h.val) =
      !(vetted || headerAdmissible conf h.name h.val) := (Bool.not_or _ _).symm
  unfold setsType at hno
  unfold restoreHeader
  rw [hadm]
  cases hin : vetted || headerAdmissible conf h.name h.val with
  | false => rfl
  | true =>
    rw [hin, Bool.true_and] at hno
    have htype : ¬h.role = hroleContentType := beq_eq_false_iff_ne.1 hno
    simp only [Bool.not_true, Bool.false_eq_true, if_false, if_neg htype]
    split_ifs
    all_goals rfl

theorem restoreHeaders_charset {conf : AdmitConf} {vetted : Bool} {refs : List Href}
    (hno : refs.any (setsType conf vetted) = false) (s : Restored) :
    (refs.foldl (restoreHeader conf vetted) s).out.charset = s.out.charset := by
  induction refs generalizing s with
  | nil => rfl
  | cons h refs ih =>
    rw [List.any_cons, Bool.or_eq_false_iff] at hno
    rw [List.foldl_cons, ih hno.2, restoreHeader_charset hno.1]

/-- The loop over the pairs, from two states that differ in the leavings. -/
theorem restoreHeaders_leave (conf : AdmitConf) (vetted : Bool) (refs : List Href) (s : Restored)
    (charset : Bytes) (allowRanges headerOnly : Bool) :
    refs.foldl (restoreHeader conf vetted)
        { s with out := s.out.leave charset allowRanges headerOnly } =
      { refs.foldl (restoreHeader conf vetted) s with
        out := (refs.foldl (restoreHeader conf vetted) s).out.leave
          (if refs.any (setsType conf vetted) then
            (refs.foldl (restoreHeader conf vetted) s).out.charset else charset)
          allowRanges headerOnly } := by
  induction refs generalizing s charset with
  | nil => rfl
  | cons h refs ih =>
    rw [List.foldl_cons, List.foldl_cons, restoreHeader_leave, ih, List.any_cons]
    cases hrest : refs.any (setsType conf vetted) with
    | true => rw [Bool.or_true]; rfl
    | false =>
      rw [Bool.or_false]
      cases hset : setsType conf vetted h with
      | true =>
        rw [restoreHeaders_charset hrest]
        rfl
      | false => rfl

/-- The end of a restore that is not answered with a 304. -/
theorem restoreResponseFinalize_leave (env : RestoreEnv) (now : Time) (r : Request) (hdr : BlobHdr)
    (date : Bytes) (xcache : ServeReason) (etag lastmod : Bytes) (out : HeadersOut)
    (hkey : env.conf.surrogateKey = false) (charset : Bytes) (allowRanges headerOnly : Bool) :
    ∃ ranges, restoreResponseFinalize env now r hdr date true xcache etag lastmod
        (out.leave charset allowRanges headerOnly) =
      ((restoreResponseFinalize env now r hdr date true xcache etag lastmod out).1.leave charset
        ranges headerOnly,
        (restoreResponseFinalize env now r hdr date true xcache etag lastmod out).2) := by
  unfold restoreResponseFinalize
  simp only [hkey, Bool.not_true, Bool.false_and, Bool.false_eq_true, if_false]
  by_cases hranges : out.status = 200 ∧ out.contentLengthN.isSome
  · have hleft : (out.leave charset allowRanges headerOnly).status = 200 ∧
        (out.leave charset allowRanges headerOnly).contentLengthN.isSome := hranges
    rw [if_pos hleft, if_pos hranges]
    exact ⟨true, rfl⟩
  · have hleft : ¬((out.leave charset allowRanges headerOnly).status = 200 ∧
        (out.leave charset allowRanges headerOnly).contentLengthN.isSome) := hranges
    rw [if_neg hleft, if_neg hranges]
    exact ⟨allowRanges, rfl⟩

theorem restoreContentEncoding_leave (flags : ℕ) (out : HeadersOut) (charset : Bytes)
    (allowRanges headerOnly : Bool) :
    restoreContentEncoding flags (out.leave charset allowRanges headerOnly) =
      (restoreContentEncoding flags out).map (HeadersOut.leave charset allowRanges headerOnly) := by
  unfold restoreContentEncoding
  split_ifs
  · rw [Option.map_map]
    rfl
  · rfl

theorem restoreContentEncoding_charset {flags : ℕ} {out enc : HeadersOut}
    (h : restoreContentEncoding flags out = some enc) : enc.charset = out.charset := by
  unfold restoreContentEncoding at h
  split_ifs at h
  · obtain ⟨name, -, rfl⟩ := Option.map_eq_some_iff.1 h
    rfl
  · obtain rfl := Option.some.inj h
    rfl

theorem restoreResponseFinalize_charset (env : RestoreEnv) (now : Time) (r : Request)
    (hdr : BlobHdr) (date : Bytes) (xcache : ServeReason) (etag lastmod : Bytes) (out : HeadersOut)
    (hkey : env.conf.surrogateKey = false) :
    (restoreResponseFinalize env now r hdr date true xcache etag lastmod out).1.charset =
      out.charset := by
  unfold restoreResponseFinalize
  simp only [hkey, Bool.not_true, Bool.false_and, Bool.false_eq_true, if_false]
  by_cases hranges : out.status = 200 ∧ out.contentLengthN.isSome
  · rw [if_pos hranges]
    rfl
  · rw [if_neg hranges]
    rfl

/-- The tag expression is not asked where `Surrogate-Key` is off. -/
theorem restoreInto_tagval {env : RestoreEnv} (hkey : env.conf.surrogateKey = false)
    (tagval : Option Bytes) (now : Time) (r : Request) (copy : Bytes) (xcache : ServeReason)
    (out : ResponseOut) :
    restoreInto { env with tagval := tagval } now r copy xcache out =
      restoreInto env now r copy xcache out := by
  unfold restoreInto restoreResponseFinalize
  simp only [hkey, Bool.not_true, Bool.false_and, Bool.false_eq_true, if_false]

theorem serveOut_tagval {env : RestoreEnv} (hkey : env.conf.surrogateKey = false)
    (tagval : Option Bytes) (now : Time) (r : Request) (copy : Bytes) :
    serveOut { env with tagval := tagval } now r copy = serveOut env now r copy := by
  unfold serveOut
  rw [restoreInto_tagval hkey]

/-! ## The leavings of a response -/

/-- The snapshot brings its own content type. -/
def snapshotTyped (conf : AdmitConf) (now : Time) (copy : Bytes) : Bool :=
  (blobValidate now copy).any (restoresType conf)

/-- `out` with the fields of `left` that a rewrite neither clears nor writes.  The charset
and the folded content type are written with the content type alone. -/
def ResponseOut.overlay (out : ResponseOut) (typed : Bool) (left : ResponseOut) : ResponseOut :=
  { out with
    charset := if typed then out.charset else left.charset
    contentTypeLowcase := if typed then out.contentTypeLowcase else left.contentTypeLowcase
    trailers := left.trailers
    server := left.server
    location := left.location
    refresh := left.refresh
    lastModified := left.lastModified
    contentRange := left.contentRange
    acceptRanges := left.acceptRanges
    wwwAuthenticate := left.wwwAuthenticate
    expires := left.expires
    etag := left.etag
    cacheControl := left.cacheControl
    link := left.link
    overrideCharset := left.overrideCharset
    contentTypeHash := left.contentTypeHash
    contentOffset := left.contentOffset
    dateTime := left.dateTime
    lastModifiedTime := left.lastModifiedTime }

/-- Two responses have the same leavings. -/
structure LeftAlike (typed : Bool) (o₁ o₂ : ResponseOut) : Prop where
  charset : typed = false → o₁.charset = o₂.charset
  contentTypeLowcase : typed = false → o₁.contentTypeLowcase = o₂.contentTypeLowcase
  trailers : o₁.trailers = o₂.trailers
  server : o₁.server = o₂.server
  location : o₁.location = o₂.location
  refresh : o₁.refresh = o₂.refresh
  lastModified : o₁.lastModified = o₂.lastModified
  contentRange : o₁.contentRange = o₂.contentRange
  acceptRanges : o₁.acceptRanges = o₂.acceptRanges
  wwwAuthenticate : o₁.wwwAuthenticate = o₂.wwwAuthenticate
  expires : o₁.expires = o₂.expires
  etag : o₁.etag = o₂.etag
  cacheControl : o₁.cacheControl = o₂.cacheControl
  link : o₁.link = o₂.link
  overrideCharset : o₁.overrideCharset = o₂.overrideCharset
  contentTypeHash : o₁.contentTypeHash = o₂.contentTypeHash
  contentOffset : o₁.contentOffset = o₂.contentOffset
  dateTime : o₁.dateTime = o₂.dateTime
  lastModifiedTime : o₁.lastModifiedTime = o₂.lastModifiedTime

/-- One restored response under two sets of leavings. -/
theorem overlay_handed_iff (typed : Bool) (o₁ o₂ out : ResponseOut) :
    (out.overlay typed o₁).handed = (out.overlay typed o₂).handed ↔ LeftAlike typed o₁ o₂ := by
  constructor
  · intro h
    have hcharset : typed = false → o₁.charset = o₂.charset := by
      rintro rfl
      exact congrArg (fun o => o.charset) h
    have hlowcase : typed = false → o₁.contentTypeLowcase = o₂.contentTypeLowcase := by
      rintro rfl
      exact congrArg (fun o => o.contentTypeLowcase) h
    exact ⟨hcharset, hlowcase, congrArg (fun o => o.trailers) h, congrArg (fun o => o.server) h,
      congrArg (fun o => o.location) h, congrArg (fun o => o.refresh) h,
      congrArg (fun o => o.lastModified) h, congrArg (fun o => o.contentRange) h,
      congrArg (fun o => o.acceptRanges) h, congrArg (fun o => o.wwwAuthenticate) h,
      congrArg (fun o => o.expires) h, congrArg (fun o => o.etag) h,
      congrArg (fun o => o.cacheControl) h, congrArg (fun o => o.link) h,
      congrArg (fun o => o.overrideCharset) h, congrArg (fun o => o.contentTypeHash) h,
      congrArg (fun o => o.contentOffset) h, congrArg (fun o => o.dateTime) h,
      congrArg (fun o => o.lastModifiedTime) h⟩
  · intro h
    have hcharset : (if typed then out.charset else o₁.charset) =
        if typed then out.charset else o₂.charset := by
      cases typed with
      | true => rfl
      | false => exact h.charset rfl
    have hlowcase : (if typed then out.contentTypeLowcase else o₁.contentTypeLowcase) =
        if typed then out.contentTypeLowcase else o₂.contentTypeLowcase := by
      cases typed with
      | true => rfl
      | false => exact h.contentTypeLowcase rfl
    unfold ResponseOut.overlay
    rw [hcharset, hlowcase, h.trailers, h.server, h.location, h.refresh, h.lastModified,
      h.contentRange, h.acceptRanges, h.wwwAuthenticate, h.expires, h.etag, h.cacheControl, h.link,
      h.overrideCharset, h.contentTypeHash, h.contentOffset, h.dateTime, h.lastModifiedTime]

/-- **A restore over a cleared response** is the restore into a blank one, under the leavings
of that response. -/
theorem restoreInto_overlay {env : RestoreEnv} (hkey : env.conf.surrogateKey = false) (now : Time)
    (r : Request) (copy : Bytes) (xcache : ServeReason) (o : ResponseOut) :
    (restoreInto env now r copy xcache (sieClear o)).map (fun a => a.out.handed) =
      (restoreInto env now r copy xcache freshOut).map
        (fun a => (a.out.overlay (snapshotTyped env.conf now copy) o).handed) := by
  unfold restoreInto snapshotTyped
  cases hv : blobValidate now copy with
  | none => rfl
  | some v =>
    rw [Option.bind_some, Option.bind_some, Option.any_some]
    dsimp only
    unfold restoreResponseHeaders
    set base : HeadersOut :=
      { freshOut.toHeadersOut with status := v.hdr.status, contentLengthN := some v.hdr.bodyLen }
      with hbase
    have hleft : ({ (sieClear o).toHeadersOut with
        status := v.hdr.status, contentLengthN := some v.hdr.bodyLen } : HeadersOut) =
        base.leave o.charset o.allowRanges o.headerOnly := rfl
    have hloop := restoreHeaders_leave env.conf (hasFlag v.hdr.flags blobfHdrsVetted) v.refs
      ⟨base, [], [], 0⟩ o.charset o.allowRanges o.headerOnly
    rw [hleft, hloop]
    dsimp only
    generalize v.refs.foldl (restoreHeader env.conf (hasFlag v.hdr.flags blobfHdrsVetted))
      ⟨base, [], [], 0⟩ = s
    rw [restoreContentEncoding_leave]
    cases henc : restoreContentEncoding v.hdr.flags s.out with
    | none => rfl
    | some enc =>
      obtain ⟨ranges, hfin⟩ := restoreResponseFinalize_leave env now r v.hdr
        ((copy.drop blobDateOff).take blobDateLen) xcache s.etag s.lastmod enc hkey
        (if restoresType env.conf v then s.out.charset else o.charset) o.allowRanges o.headerOnly
      have hcharset := (restoreResponseFinalize_charset env now r v.hdr
        ((copy.drop blobDateOff).take blobDateLen) xcache s.etag s.lastmod enc hkey).trans
        (restoreContentEncoding_charset henc)
      have htyped : v.refs.any (setsType env.conf (hasFlag v.hdr.flags blobfHdrsVetted)) =
          restoresType env.conf v := rfl
      rw [htyped]
      simp only [Option.map_some, hfin]
      unfold ResponseOut.handed ResponseOut.overlay HeadersOut.leave
      dsimp only
      rw [hcharset]
      cases restoresType env.conf v with
      | true => rfl
      | false => rfl

/-! ## Two errors -/

/-- A restore that is rewritten over an error. -/
theorem sieRewriteOut_eq {env : RestoreEnv} {now : Time} {r : Request} {snap : Bytes}
    {o : ResponseOut} {a : Restoration} (h : sieRewriteOut env now r snap o = .rewritten a) :
    ¬(snap.length ≥ blobHdrWire ∧ requestRefused r (blobFlags snap)) ∧
      restoreInto env now r snap .staleIfError (sieClear o) = some a := by
  unfold sieRewriteOut at h
  split_ifs at h with hrefused
  cases hrestore : restoreInto env now r snap .staleIfError (sieClear o) with
  | none =>
    rw [hrestore] at h
    cases h
  | some b =>
    rw [hrestore] at h
    exact ⟨hrefused, congrArg some (RewriteRc.rewritten.inj h)⟩

/-- A snapshot that is rewritten over an error is served, unless it is for the breaker
alone. -/
theorem serveOut_eq {env : RestoreEnv} {now : Time} {r : Request} {snap : Bytes} {o : ResponseOut}
    {a : Restoration} (h : sieRewriteOut env now r snap o = .rewritten a) :
    serveOut env now r snap =
      if hasFlag (blobFlags snap) blobfBreakerOnly then .declined
      else .ofRestore (restoreInto env now r snap .staleIfError freshOut) := by
  obtain ⟨hrefused, hrestore⟩ := sieRewriteOut_eq h
  have hlen : snap.length ≥ blobHdrWire := by
    unfold restoreInto at hrestore
    obtain ⟨v, hv, -⟩ := Option.bind_eq_some_iff.1 hrestore
    exact (blobValidate_hdr hv).1
  have hpass : requestRefused r (blobFlags snap) = false :=
    Bool.eq_false_iff.2 fun hno => hrefused ⟨hlen, hno⟩
  unfold serveOut breakerOnlyRefused
  rw [hpass, Bool.or_false]
  cases hasFlag (blobFlags snap) blobfBreakerOnly with
  | true => exact if_pos ⟨hlen, rfl⟩
  | false => exact if_neg fun hno => Bool.false_ne_true hno.2

/-- **The headers that take the place of an error** are the same for two errors, and those of
a served copy, exactly when the two have the same leavings, and (where `serve` lets the
snapshot pass) these are the ones of a blank response. -/
theorem sie_headers_iff (env : RestoreEnv) (hkey : env.conf.surrogateKey = false)
    (tag₁ tag₂ tag₃ : Option Bytes) {now : Time} {r : Request} {snap : Bytes} {o₁ o₂ : ResponseOut}
    {a₁ a₂ : Restoration}
    (h₁ : sieRewriteOut { env with tagval := tag₁ } now r snap o₁ = .rewritten a₁)
    (h₂ : sieRewriteOut { env with tagval := tag₂ } now r snap o₂ = .rewritten a₂) :
    (a₁.out.handed = a₂.out.handed ∧
      ∀ a, serveOut { env with tagval := tag₃ } now r snap = .rewritten a →
        a₁.out.handed = a.out.handed) ↔
    LeftAlike (snapshotTyped env.conf now snap) o₁ o₂ ∧
      (hasFlag (blobFlags snap) blobfBreakerOnly = false →
        LeftAlike (snapshotTyped env.conf now snap) o₁ freshOut) := by
  have hserve := serveOut_eq h₁
  obtain ⟨hpass, hr₁⟩ := sieRewriteOut_eq h₁
  obtain ⟨-, hr₂⟩ := sieRewriteOut_eq h₂
  rw [restoreInto_tagval hkey] at hr₁ hr₂ hserve
  rw [serveOut_tagval hkey] at hserve
  -- both are one restore into a blank response, under their own leavings
  have hover := restoreInto_overlay hkey now r snap .staleIfError
  cases hblank : restoreInto env now r snap .staleIfError freshOut with
  | none =>
    have hno := hover o₁
    rw [hblank, hr₁] at hno
    cases hno
  | some a =>
    have hout₁ := hover o₁
    have hout₂ := hover o₂
    have hout₃ := hover freshOut
    have hclear : sieClear freshOut = freshOut := rfl
    rw [hr₁, hblank] at hout₁
    rw [hr₂, hblank] at hout₂
    rw [hclear, hblank] at hout₃
    have h₁' := Option.some.inj hout₁
    have h₂' := Option.some.inj hout₂
    have h₃' := Option.some.inj hout₃
    dsimp only at h₁' h₂' h₃'
    rw [serveOut_tagval hkey, hserve, hblank, h₁', h₂', overlay_handed_iff]
    refine and_congr_right fun _ => ?_
    cases hasFlag (blobFlags snap) blobfBreakerOnly with
    | true => exact iff_of_true (fun _ h => nomatch h) fun h => nomatch h
    | false =>
      rw [← overlay_handed_iff _ _ _ a.out, ← h₃']
      constructor
      · exact fun h _ => h a rfl
      · intro h b hb
        rw [← RewriteRc.rewritten.inj hb]
        exact h rfl

/-! ## An error with a validator -/

/-- A location without `Surrogate-Key`, and a request without conditions. -/
def plainEnv : RestoreEnv :=
  { conf := ⟨false, []⟩, tagval := none, ifNoneMatch := none, ifModifiedSince := none,
    parseHttpTime := fun _ => none }

/-- A 503 of an origin that gives its error page an entity tag. -/
def taggedError : ResponseOut :=
  { freshOut with
    status := 503
    headers := [(etagName, newTag)]
    etag := some ⟨1, etagName, newTag⟩ }

/-- A bare 503. -/
def bareError : ResponseOut := { freshOut with status := 503 }

/-- `headers_out` with the snapshot of the old page in the place of `o`. -/
def rewrittenOver (o : ResponseOut) : RewriteRc :=
  sieRewriteOut plainEnv 1100 (bareRequest [47]) (taggedPage oldTag) o

theorem sie_headers_iff_bare : ∃ a, rewrittenOver bareError = .rewritten a ∧
    ((a.out.handed = a.out.handed ∧
      ∀ b, serveOut plainEnv 1100 (bareRequest [47]) (taggedPage oldTag) = .rewritten b →
        a.out.handed = b.out.handed) ↔
    LeftAlike (snapshotTyped plainEnv.conf 1100 (taggedPage oldTag)) bareError bareError ∧
      (hasFlag (blobFlags (taggedPage oldTag)) blobfBreakerOnly = false →
        LeftAlike (snapshotTyped plainEnv.conf 1100 (taggedPage oldTag)) bareError freshOut)) := by
  obtain ⟨a, ha⟩ := Option.isSome_iff_exists.1
    (show (rewrittenOver bareError).restored.isSome = true by decide +kernel)
  have hdone := RewriteRc.of_restored ha
  exact ⟨a, hdone, sie_headers_iff plainEnv rfl none none none hdone hdone⟩

/-- **The entity tag of an error outlives it.**  The error page's tag stays in `headers_out`
when the snapshot takes its place. -/
theorem rewritten_keeps_etag :
    ¬ ∀ (env : RestoreEnv) (tag₁ tag₂ tag₃ : Option Bytes) (now : Time) (r : Request)
      (snap : Bytes) (o₁ o₂ : ResponseOut) (a₁ a₂ : Restoration), env.conf.surrogateKey = false →
      sieRewriteOut { env with tagval := tag₁ } now r snap o₁ = .rewritten a₁ →
      sieRewriteOut { env with tagval := tag₂ } now r snap o₂ = .rewritten a₂ →
      a₁.out.handed = a₂.out.handed ∧
        ∀ a, serveOut { env with tagval := tag₃ } now r snap = .rewritten a →
          a₁.out.handed = a.out.handed := by
  intro hall
  obtain ⟨a₁, ha₁⟩ := Option.isSome_iff_exists.1
    (show (rewrittenOver taggedError).restored.isSome = true by decide +kernel)
  obtain ⟨a₂, ha₂⟩ := Option.isSome_iff_exists.1
    (show (rewrittenOver bareError).restored.isSome = true by decide +kernel)
  have hsame := (hall plainEnv none none none 1100 (bareRequest [47]) (taggedPage oldTag)
    taggedError bareError a₁ a₂ rfl (RewriteRc.of_restored ha₁) (RewriteRc.of_restored ha₂)).1
  have htag₁ : (rewrittenOver taggedError).restored.map (fun a => a.out.handed.etag) =
      some (some ⟨1, etagName, newTag⟩) := by decide +kernel
  have htag₂ : (rewrittenOver bareError).restored.map (fun a => a.out.handed.etag) =
      some none := by decide +kernel
  rw [ha₁, Option.map_some, hsame] at htag₁
  rw [ha₂, Option.map_some] at htag₂
  rw [htag₂] at htag₁
  cases Option.some.inj htag₁

end Http
end CacheTurbo
