/-
# The vary axes

The classes of a request on the four axes of the automatic `Vary` handling
(`ngx_http_cache_turbo_vary.c`): the encoding it accepts, its device, the
primary subtag of its language, and its origin.
-/

import CacheTurbo.Http.Request

namespace CacheTurbo
namespace Http

open Bytes

/-! ## Accept-Encoding -/

/-- A blank of a header value: a space or a tab. -/
def isBlank (c : UInt8) : Bool := c == 32 || c == 9

/-- Blanks trimmed at both ends. -/
def trim (b : Bytes) : Bytes := ((b.dropWhile isBlank).reverse.dropWhile isBlank).reverse

/-- The walk of `ngx_http_cache_turbo_ae_q_ok`; `semi` says that a `;` and then only
blanks came before. -/
def aeQScan (semi : Bool) : Bytes → Bool
  | [] => true
  | c :: rest =>
      if semi && isBlank c then aeQScan true rest
      else if semi && (c == 113 || c == 81) && rest.head? == some 61 then
        (rest.tail.takeWhile fun d => d != 59 && !isBlank d).any fun d => 49 ≤ d && d ≤ 57
      else aeQScan (c == 59) rest

/-- `ngx_http_cache_turbo_ae_q_ok`: the parameters of a coding carry no `q`, or one
that is not zero. -/
def aeQOk (params : Bytes) : Bool := aeQScan false params

/-- One element of an `Accept-Encoding` list: the coding name, blanks trimmed, and
the parameters from the first `;` on. -/
def aeElement (element : Bytes) : Bytes × Bytes :=
  (trim (element.takeWhile (· != 59)), element.dropWhile (· != 59))

/-- The codings that were found so far. -/
structure AeFound where
  zstd : Bool
  br : Bool
  gzip : Bool

/-- `ngx_http_cache_turbo_ae_class_match_coding`. -/
def aeClassMatchCoding (tok : Bytes) (f : AeFound) : AeFound :=
  if tok.length = 4 ∧ eqFold tok (lit ['z', 's', 't', 'd']) then { f with zstd := true }
  else if tok.length = 2 ∧ eqFold tok (lit ['b', 'r']) then { f with br := true }
  else if tok.length = 4 ∧ eqFold tok (lit ['g', 'z', 'i', 'p']) then { f with gzip := true }
  else f

/-- The walk over the elements, which stops once `zstd` was seen. -/
def aeClassScan : List Bytes → AeFound → AeFound
  | [], f => f
  | element :: rest, f =>
      let (tok, params) := aeElement element
      if tok.length > 0 ∧ aeQOk params then
        let f := aeClassMatchCoding tok f
        if f.zstd then f else aeClassScan rest f
      else aeClassScan rest f

/-- `ngx_http_cache_turbo_ae_class_dispatch`. -/
def aeClassDispatch (f : AeFound) : Bytes :=
  if f.zstd then lit ['z', 's', 't', 'd']
  else if f.br then lit ['b', 'r']
  else if f.gzip then lit ['g', 'z', 'i', 'p']
  else lit ['i', 'd', 'e', 'n', 't', 'i', 't', 'y']

/-- `ngx_http_cache_turbo_ae_class`. -/
def aeClass (r : Request) : Bytes :=
  match r.headersIn.acceptEncoding with
  | none => aeClassDispatch ⟨false, false, false⟩
  | some v => aeClassDispatch (aeClassScan (v.splitOn 44) ⟨false, false, false⟩)

/-- `NGX_HTTP_CACHE_TURBO_AE_CLASS_*`. -/
def aeClassIdentity : ℕ := 0

def aeClassGzip : ℕ := 1

def aeClassBr : ℕ := 2

def aeClassZstd : ℕ := 3

/-- The coding name of a class that has one. -/
def aeClassName (cls : ℕ) : Option Bytes :=
  if cls = aeClassZstd then some (lit ['z', 's', 't', 'd'])
  else if cls = aeClassBr then some (lit ['b', 'r'])
  else if cls = aeClassGzip then some (lit ['g', 'z', 'i', 'p'])
  else none

/-- `ngx_http_cache_turbo_ae_class_accepted`. -/
def aeClassAccepted (r : Request) (cls : ℕ) : Bool :=
  if cls = aeClassIdentity then true
  else
    match aeClassName cls, r.headersIn.acceptEncoding with
    | some name, some v =>
        (v.splitOn 44).any fun element =>
          let (tok, params) := aeElement element
          tok.length == name.length && eqFold tok name && aeQOk params
    | _, _ => false

/-! ## The other axes -/

/-- Whether `needle`, in lower case, begins at the front. -/
def matchLc (needle : Bytes) (b : Bytes) : Bool :=
  needle.length ≤ b.length && (b.take needle.length).map lower == needle

/-- `ngx_http_cache_turbo_device_class`. -/
def deviceClass (r : Request) : Bytes :=
  match r.headersIn.userAgent with
  | none => lit ['d', 'e', 's', 'k', 't', 'o', 'p']
  | some ua =>
      if ua.tails.any fun t =>
          matchLc (lit ['m', 'o', 'b', 'i']) t
            || matchLc (lit ['a', 'n', 'd', 'r', 'o', 'i', 'd']) t
            || matchLc (lit ['i', 'p', 'h', 'o', 'n', 'e']) t then
        lit ['m', 'o', 'b', 'i', 'l', 'e']
      else lit ['d', 'e', 's', 'k', 't', 'o', 'p']

/-- `NGX_HTTP_CACHE_TURBO_LANG_CLASS_MAX`. -/
def langClassMax : ℕ := 8

/-- `ngx_http_cache_turbo_lang_class`. -/
def langClass (r : Request) : Bytes :=
  let v := reqHeader r (lit ['A', 'c', 'c', 'e', 'p', 't', '-', 'L', 'a', 'n', 'g', 'u', 'a',
    'g', 'e'])
  let range := v.takeWhile (· != 44)
  let subtag := range.takeWhile fun c => c != 45 && c != 59
  (subtag.take langClassMax).map lower

/-- The raw `Origin` of a request. -/
def originClass (r : Request) : Bytes := reqHeader r (lit ['O', 'r', 'i', 'g', 'i', 'n'])

/-! ## The bits -/

/-- `NGX_HTTP_CACHE_TURBO_VARY_ENCODING`. -/
def varyEncoding : ℕ := 1

/-- `NGX_HTTP_CACHE_TURBO_VARY_DEVICE`. -/
def varyDevice : ℕ := 2

/-- `NGX_HTTP_CACHE_TURBO_VARY_LANG`. -/
def varyLang : ℕ := 4

/-- `NGX_HTTP_CACHE_TURBO_VARY_ORIGIN`. -/
def varyOrigin : ℕ := 8

end Http
end CacheTurbo
