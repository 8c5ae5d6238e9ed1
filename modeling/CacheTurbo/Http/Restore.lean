/-
# What a delivery sends

`ngx_http_cache_turbo_restore_response` fills `headers_out` from a validated blob
and hands its body to the caller (`ngx_http_cache_turbo_module.c`).  The stored
pairs are looked at again, unless the blob is marked as vetted; the content type
has a field of its own; `Content-Encoding`, `Date`, `Age`, `X-Cache` and
`Surrogate-Key` are made here and never read from the pairs.

The body is sent from where it lies: a buffer is a pair of offsets into the blob.
The value of the tag expression and `ngx_parse_http_time` are parameters.
-/

import CacheTurbo.Blob.Headers
import CacheTurbo.Http.Serve

namespace CacheTurbo
namespace Http

open Bytes Blob

/-- The part of `ngx_http_headers_out_t` that a restore writes. -/
structure HeadersOut where
  status : ℕ
  /-- No length is `-1`. -/
  contentLengthN : Option ℕ
  contentType : Bytes
  contentTypeLen : ℕ
  charset : Bytes
  headers : List (Bytes × Bytes)
  allowRanges : Bool
  headerOnly : Bool
  deriving DecidableEq, Repr

/-- What a restore reads beside the blob: the location, the value of its tag expression
for the request, the conditions of the request, and the reader of HTTP dates. -/
structure RestoreEnv where
  conf : AdmitConf
  tagval : Option Bytes
  ifNoneMatch : Option Bytes
  ifModifiedSince : Option Bytes
  parseHttpTime : Bytes → Option Time

/-- `ngx_http_cache_turbo_add_header`. -/
def addHeader (out : HeadersOut) (name val : Bytes) : HeadersOut :=
  { out with headers := out.headers ++ [(name, val)] }

/-! ## The content type -/

/-- `"charset="`. -/
def charsetEq : Bytes := lit ['c', 'h', 'a', 'r', 's', 'e', 't', '=']

/-- The charset behind its name, without the quotes around it. -/
def unquoteCharset (p : Bytes) : Bytes :=
  let p := if p.head? = some 34 then p.drop 1 else p
  if p.getLast? = some 34 then p.dropLast else p

/-- The loop of `ngx_http_cache_turbo_restore_content_type` from position `pos`: the length of
the type, and the charset.  The blanks behind a semicolon are no semicolons, so going on
behind the semicolon is going on behind them. -/
def charsetScan : ℕ → Bytes → Option (ℕ × Bytes)
  | _, [] => none
  | pos, c :: rest =>
      if c ≠ 59 then charsetScan (pos + 1) rest
      else
        let p := rest.dropWhile (· == 32)
        if charsetEq.length ≤ p.length ∧ eqFold (p.take charsetEq.length) charsetEq then
          some (pos, unquoteCharset (p.drop charsetEq.length))
        else charsetScan (pos + 1) rest

/-- `ngx_http_cache_turbo_restore_content_type`. -/
def restoreContentType (out : HeadersOut) (value : Bytes) : HeadersOut :=
  match charsetScan 0 value with
  | some (typeLen, charset) =>
      { out with contentType := value, contentTypeLen := typeLen, charset := charset }
  | none => { out with contentType := value, contentTypeLen := value.length, charset := [] }

/-! ## The stored pairs -/

/-- `headers_out`, and what the loop over the pairs leaves beside it. -/
structure Restored where
  out : HeadersOut
  etag : Bytes
  lastmod : Bytes
  dropped : ℕ
  deriving DecidableEq, Repr

/-- One turn of `ngx_http_cache_turbo_restore_response_headers`. -/
def restoreHeader (conf : AdmitConf) (vetted : Bool) (s : Restored) (h : Href) : Restored :=
  if !vetted && !headerAdmissible conf h.name h.val then { s with dropped := s.dropped + 1 }
  else if h.role = hroleContentType then { s with out := restoreContentType s.out h.val }
  else if h.role = hroleEtag then
    { s with etag := h.val, out := addHeader s.out h.name h.val }
  else if h.role = hroleLastModified then
    { s with lastmod := h.val, out := addHeader s.out h.name h.val }
  else { s with out := addHeader s.out h.name h.val }

/-- `ngx_http_cache_turbo_restore_response_headers`. -/
def restoreResponseHeaders (conf : AdmitConf) (flags : ℕ) (refs : List Href) (out : HeadersOut) :
    Restored :=
  refs.foldl (restoreHeader conf (hasFlag flags blobfHdrsVetted)) ⟨out, [], [], 0⟩

/-- `"Content-Encoding"`. -/
def contentEncodingName : Bytes :=
  lit ['C', 'o', 'n', 't', 'e', 'n', 't', '-', 'E', 'n', 'c', 'o', 'd', 'i', 'n', 'g']

/-- `ngx_http_cache_turbo_restore_content_encoding`. -/
def restoreContentEncoding (flags : ℕ) (out : HeadersOut) : Option HeadersOut :=
  if hasFlag flags blobfOriginEncoded then
    (aeClassName (flagsAeClass flags)).map (addHeader out contentEncodingName)
  else some out

/-! ## The tags of the response -/

/-- `NGX_HTTP_CACHE_TURBO_MAX_TAGS`. -/
def maxTags : ℕ := 16

/-- `NGX_HTTP_CACHE_TURBO_MAX_TAG_LEN`. -/
def maxTagLen : ℕ := 128

/-- A blank, a tab, a comma or an end of line. -/
def tagSep (c : UInt8) : Bool := c == 32 || c == 9 || c == 44 || c == 13 || c == 10

/-- The pieces of a string between separators, when `cur` is the piece begun. -/
def tagPieces (cur : Bytes) : Bytes → List Bytes
  | [] => [cur]
  | c :: cs => if tagSep c then cur :: tagPieces [] cs else tagPieces (cur ++ [c]) cs

/-- `ngx_http_cache_turbo_emit_surrogate_key_parse` over the pieces of the value. -/
def emitSurrogateKeyParse : List Bytes → List Bytes → List Bytes
  | [], seen => seen
  | tok :: toks, seen =>
      if seen.length ≥ maxTags then seen
      else if tok.length = 0 ∨ tok.length > maxTagLen ∨ tok ∈ seen then
        emitSurrogateKeyParse toks seen
      else emitSurrogateKeyParse toks (seen ++ [tok])

/-- `ngx_http_cache_turbo_emit_surrogate_key`. -/
def emitSurrogateKey (tagval : Option Bytes) (out : HeadersOut) : HeadersOut :=
  match tagval with
  | none => out
  | some v =>
      let seen := emitSurrogateKeyParse (tagPieces [] v) []
      if seen = [] then out else addHeader out surrogateKeyName ([32].intercalate seen)

/-! ## A conditional request -/

/-- `ngx_strncmp(a, b, n) == 0`: the comparison ends with a common NUL. -/
def strncmpEq : ℕ → Bytes → Bytes → Bool
  | 0, _, _ => true
  | n + 1, a, b =>
      a.headD 0 == b.headD 0 && (a.headD 0 == 0 || strncmpEq n a.tail b.tail)

/-- A tag without the mark of a weak one. -/
def stripWeak (s : Bytes) : Bytes :=
  if s.length > 2 ∧ s.take 2 = lit ['W', '/'] then s.drop 2 else s

/-- The jump to the next tag of a list. -/
def etagSkip (s : Bytes) : Bytes :=
  (s.dropWhile (· != 44)).dropWhile fun c => c == 32 || c == 9 || c == 44

/-- The loop of `ngx_http_cache_turbo_not_modified_etag`; every turn takes a byte, so the
length of the list is fuel enough. -/
def etagWalk (etag : Bytes) : ℕ → Bytes → Bool
  | 0, _ => false
  | fuel + 1, s =>
      if s = [] then false
      else
        let s := stripWeak s
        if etag.length > s.length then false
        else if strncmpEq etag.length s etag then
          let s := (s.drop etag.length).dropWhile fun c => c == 32 || c == 9
          if s = [] ∨ s.head? = some 44 then true else etagWalk etag fuel (etagSkip s)
        else etagWalk etag fuel (etagSkip s)

/-- `ngx_http_cache_turbo_not_modified_etag`. -/
def notModifiedEtag (env : RestoreEnv) (etag : Bytes) : Bool :=
  match env.ifNoneMatch with
  | none => false
  | some inm =>
      if inm = lit ['*'] then true
      else if etag.length = 0 then false
      else etagWalk (stripWeak etag) inm.length inm

/-- `ngx_http_cache_turbo_not_modified_time`. -/
def notModifiedTime (env : RestoreEnv) (lm : Bytes) : Bool :=
  match env.ifModifiedSince with
  | none => false
  | some ims =>
      if lm.length = 0 then false
      else
        match env.parseHttpTime ims, env.parseHttpTime lm with
        | some imsT, some lmT => decide (lmT ≤ imsT)
        | _, _ => false

/-- `ngx_http_cache_turbo_not_modified`. -/
def requestNotModified (env : RestoreEnv) (etag lm : Bytes) : Bool :=
  notModifiedEtag env etag || notModifiedTime env lm

/-! ## The rest of the response -/

/-- `"Date"`, `"Age"` and `"X-Cache"`. -/
def dateName : Bytes := lit ['D', 'a', 't', 'e']

def ageName : Bytes := lit ['A', 'g', 'e']

def xCacheName : Bytes := lit ['X', '-', 'C', 'a', 'c', 'h', 'e']

/-- `ngx_http_cache_turbo_xcache_str`. -/
def xcacheStr : ServeReason → Bytes
  | .stale => lit ['S', 'T', 'A', 'L', 'E']
  | .staleIfError => lit ['S', 'T', 'A', 'L', 'E', '-', 'I', 'F', '-', 'E', 'R', 'R', 'O', 'R']
  | .staleBreaker => lit ['S', 'T', 'A', 'L', 'E', '-', 'B', 'R', 'E', 'A', 'K', 'E', 'R']
  | .fresh | .none | .breaker503 => lit ['H', 'I', 'T']

/-- The answer that nothing was modified. -/
def toNotModified (out : HeadersOut) : HeadersOut :=
  { out with status := 304, contentLengthN := none, contentType := [], headerOnly := true }

/-- `ngx_http_cache_turbo_restore_response_finalize`: `headers_out`, and the length of the
body. -/
def restoreResponseFinalize (env : RestoreEnv) (now : Time) (r : Request) (hdr : BlobHdr)
    (date : Bytes) (stale : Bool) (xcache : ServeReason) (etag lastmod : Bytes)
    (out : HeadersOut) : HeadersOut × ℕ :=
  let out := if env.conf.surrogateKey then emitSurrogateKey env.tagval out else out
  let modified := !stale && hdr.status == 200 && (r.method == .get || r.method == .head) &&
    requestNotModified env etag lastmod
  let out := if modified then toNotModified out else out
  let bodyLen := if modified then 0 else hdr.bodyLen
  let out := if out.status = 200 ∧ out.contentLengthN.isSome then { out with allowRanges := true }
    else out
  let out := addHeader out dateName date
  let age := if now - hdr.created < 0 then 0 else now - hdr.created
  let out := addHeader out ageName (decimal age.toNat)
  (addHeader out xCacheName (xcacheStr xcache), bodyLen)

/-- What `restore_response` gives its caller: `headers_out`, where the body begins in the
blob, and how long it is. -/
structure Answered where
  out : HeadersOut
  body : ℕ
  bodyLen : ℕ
  deriving DecidableEq, Repr

/-- `ngx_http_cache_turbo_restore_response_prologue` for a blob that validates. -/
def restoreResponsePrologue (hdr : BlobHdr) : HeadersOut where
  status := hdr.status
  contentLengthN := some hdr.bodyLen
  contentType := []
  contentTypeLen := 0
  charset := []
  headers := []
  allowRanges := false
  headerOnly := false

/-- `ngx_http_cache_turbo_restore_response`, where the pool grants what it asks for. -/
def restoreAnswer (env : RestoreEnv) (now : Time) (r : Request) (copy : Bytes) (stale : Bool)
    (xcache : ServeReason) : Option Answered :=
  (blobValidate now copy).bind fun v =>
    let s := restoreResponseHeaders env.conf v.hdr.flags v.refs (restoreResponsePrologue v.hdr)
    (restoreContentEncoding v.hdr.flags s.out).map fun out =>
      let date := (copy.drop blobDateOff).take blobDateLen
      let fin := restoreResponseFinalize env now r v.hdr date stale xcache s.etag s.lastmod out
      { out := fin.1, body := blobHdrWire + v.hdr.headersLen, bodyLen := fin.2 }

/-! ## The body -/

/-- `ngx_buf_t` over the blob: `pos` and `last`, counted from its first byte. -/
structure Buf where
  pos : ℕ
  last : ℕ
  deriving DecidableEq, Repr

/-- `NGX_HTTP_CACHE_TURBO_SERVE_CHUNK`. -/
def serveChunk : ℕ := 32768

/-- The loop of `ngx_http_cache_turbo_serve` that cuts the body, from offset `off`. -/
def serveChain (body bodyLen : ℕ) : ℕ → ℕ → List Buf
  | 0, _ => []
  | nbufs + 1, off =>
      let n := if bodyLen - off > serveChunk then serveChunk else bodyLen - off
      ⟨body + off, body + off + n⟩ :: serveChain body bodyLen nbufs (off + serveChunk)

/-- The buffers `ngx_http_cache_turbo_serve` sends: none for a head. -/
def serveBufs (a : Answered) (head : Bool) : List Buf :=
  if a.out.headerOnly || head then []
  else serveChain a.body a.bodyLen ((a.bodyLen + serveChunk - 1) / serveChunk) 0

/-- `ngx_http_cache_turbo_body_filter_sie_emit`: the body in one buffer. -/
def sieEmit (a : Answered) : List Buf := [⟨a.body, a.body + a.bodyLen⟩]

end Http
end CacheTurbo
