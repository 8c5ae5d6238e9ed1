/-
# Cache keys

The cache key of a request (`ngx_http_cache_turbo_build_key`, with the key
cookies of `ngx_http_cache_turbo_match.c`) and the three keys that are derived
from it (`ngx_http_cache_turbo_variant_hash`, `_marker_hash` and
`_variant_index_name`).  The digest is a parameter: any function from byte
strings to 32 bytes.
-/

import CacheTurbo.Shm.Node
import CacheTurbo.Http.Vary
import Mathlib.Algebra.GroupWithZero.Nat

namespace CacheTurbo
namespace Http

open Bytes

/-! ## Cookies -/

/-- `ngx_http_cache_turbo_cookie_pair_t`. -/
structure CookiePair where
  name : Bytes
  value : Bytes
  bare : Bool
  deriving DecidableEq, Repr

/-- `ngx_http_cache_turbo_cookie_index_add`: the first pair of a name wins. -/
def cookieIndexAdd (idx : List CookiePair) (p : CookiePair) : List CookiePair :=
  if idx.any fun q => q.name == p.name then idx else idx ++ [p]

/-- Blanks trimmed at the end. -/
def trimEnd (b : Bytes) : Bytes := (b.reverse.dropWhile isBlank).reverse

/-- One segment between two semicolons, as a pair. -/
def cookiePair (segment : Bytes) : Option CookiePair :=
  let pair := trim segment
  if pair = [] then none
  else if pair.contains 61 then
    some ⟨trimEnd (pair.takeWhile (· != 61)),
      ((pair.dropWhile (· != 61)).tail).dropWhile isBlank, false⟩
  else some ⟨trimEnd pair, [], true⟩

/-- `ngx_http_cache_turbo_cookie_index_parse_one`. -/
def cookieIndexParseOne (idx : List CookiePair) (line : Bytes) : List CookiePair :=
  ((line.splitOn 59).filterMap cookiePair).foldl cookieIndexAdd idx

/-- `ngx_http_cache_turbo_cookie_index`. -/
def cookieIndex (r : Request) : List CookiePair :=
  r.headersIn.cookie.foldl cookieIndexParseOne []

/-- `ngx_http_cache_turbo_cookie_index_lookup`. -/
def cookieIndexLookup (r : Request) (name : Bytes) : Option Bytes :=
  ((cookieIndex r).find? fun p => p.name == name).map CookiePair.value

/-! ## The key string -/

/-- `NGX_HTTP_CACHE_TURBO_KEY_COOKIE_MAX`. -/
def keyCookieMax : ℕ := 256

/-- `NGX_HTTP_CACHE_TURBO_KEY_COOKIE_OVERSIZE`. -/
def keyCookieOversize : ℕ := 2 ^ 32 - 1

/-- `ngx_http_cache_turbo_put_u32`. -/
def putU32 (v : ℕ) : Bytes :=
  [(v % 256).toUInt8, (v / 2 ^ 8 % 256).toUInt8, (v / 2 ^ 16 % 256).toUInt8,
    (v / 2 ^ 24 % 256).toUInt8]

/-- What the key reads of the location configuration. -/
structure KeyConf where
  /-- `cache_turbo_key`: the value of the operator's expression for a request. -/
  key : Option (Request → Bytes)
  /-- The key cookies of the enabled presets. -/
  autoKeyCookies : List Bytes
  /-- `cache_turbo_key_cookie`. -/
  keyCookies : List Bytes

/-- The key cookies that a request carries, with their values: those of the presets,
then those of the configuration. -/
def keyCookieSlots (conf : KeyConf) (r : Request) : List (Bytes × Bytes) :=
  (conf.autoKeyCookies ++ conf.keyCookies).filterMap fun name =>
    (cookieIndexLookup r name).map fun val => (name, val)

/-- `ngx_http_cache_turbo_key_fold_size` and `_key_fold_append` for one cookie. -/
def keyFoldAppend (slot : Bytes × Bytes) : Bytes :=
  let oversize := slot.2.length > keyCookieMax
  let vfield := if oversize then keyCookieOversize else slot.2.length
  31 :: (putU32 slot.1.length ++ putU32 vfield ++ slot.1 ++ if oversize then [] else slot.2)

/-- `ngx_http_cache_turbo_key_fold_all`. -/
def keyFoldAll (cacheKey : Bytes) (slots : List (Bytes × Bytes)) : Bytes :=
  cacheKey ++ slots.flatMap keyFoldAppend

/-- The key before the cookies: the operator's expression, or host and request URI. -/
def keyExpression (conf : KeyConf) (r : Request) : Bytes :=
  match conf.key with
  | some value => value r
  | none => r.headersIn.server ++ r.unparsedUri

/-- `ngx_http_cache_turbo_build_key`: `ctx->cache_key`. -/
def buildKey (conf : KeyConf) (r : Request) : Bytes :=
  keyFoldAll (keyExpression conf r) (keyCookieSlots conf r)

/-! ## The derived keys -/

variable (digest : Bytes → KeyHash)

/-- The delimiter, `0x1F`. -/
def us : UInt8 := 31

/-- One axis in the material of a variant key. -/
def axisField (bit : Bool) (tag cls : Bytes) : Bytes := if bit then us :: (tag ++ cls) else []

/-- What `ngx_http_cache_turbo_variant_hash` appends to the base key. -/
def variantSuffix (r : Request) (bits gen : ℕ) : Bytes :=
  let gen := gen % 256
  us :: (lit ['g', 'e', 'n', '='] ++ decimal gen)
    ++ (axisField (bits &&& varyEncoding != 0) (lit ['a', 'e', '=']) (aeClass r)
      ++ (axisField (bits &&& varyDevice != 0) (lit ['d', 'e', 'v', '=']) (deviceClass r)
        ++ (axisField (bits &&& varyLang != 0) (lit ['l', 'a', 'n', 'g', '=']) (langClass r)
          ++ axisField (bits &&& varyOrigin != 0) (lit ['o', 'r', 'g', '=']) (originClass r))))

/-- `ngx_http_cache_turbo_variant_hash`. -/
def variantHash (r : Request) (base : Bytes) (bits gen : ℕ) : KeyHash :=
  digest (base ++ variantSuffix r bits gen)

/-- What `ngx_http_cache_turbo_marker_hash` appends to the base key. -/
def markerSuffix : Bytes := us :: lit ['v', 'a', 'r', 'y', 'm', 'a', 'r', 'k']

/-- `ngx_http_cache_turbo_marker_hash`. -/
def markerHash (base : Bytes) : KeyHash := digest (base ++ markerSuffix)

/-- What `ngx_http_cache_turbo_variant_index_name` appends to the base key. -/
def variantIndexSuffix : Bytes := us :: lit ['v', 'a', 'r', 'i', 'd', 'x']

/-- The lower-case digit of a nibble. -/
def hexDigit (n : UInt8) : UInt8 := if n < 10 then 48 + n else 87 + n

/-- `ngx_hex_dump`. -/
def hexDump (b : Bytes) : Bytes := 
  b.flatMap fun c : UInt8 => [hexDigit (c >>> 4), hexDigit (c &&& 15)]

/-- `ngx_http_cache_turbo_variant_index_name`. -/
def variantIndexName (base : Bytes) : Bytes :=
  32 :: hexDump (digest (base ++ variantIndexSuffix)).toList

end Http
end CacheTurbo
