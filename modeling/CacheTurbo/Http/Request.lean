/-
# Requests

What the cache reads of an `ngx_http_request_t`: the method, the request line,
and `headers_in`, which holds the header list and, beside it, the typed fields
nginx fills from it.  The typed fields are kept apart from the list because the
code that rebuilds the list of a background subrequest leaves them as they are,
except for the cookies.
-/

import CacheTurbo.Lib.Bytes

namespace CacheTurbo
namespace Http

open Bytes

/-- `ngx_table_elt_t`. -/
structure Header where
  hash : ℕ
  key : Bytes
  value : Bytes
  deriving DecidableEq, Repr

/-- A header whose name is the literal `name`, in any case. -/
def Header.named (h : Header) (name : Bytes) : Bool :=
  h.key.length == name.length && eqFold h.key name

/-- `ngx_http_headers_in_t`: the list, and the fields the cache reads by pointer. -/
structure HeadersIn where
  headers : List Header
  server : Bytes
  acceptEncoding : Option Bytes
  userAgent : Option Bytes
  authorization : Option Bytes
  cookie : List Bytes
  deriving DecidableEq, Repr

/-- The methods the cache tells apart. -/
inductive Method
  | get
  | head
  | purge
  | other
  deriving DecidableEq, Repr

/-- `ngx_http_request_t`. -/
structure Request where
  method : Method
  uri : Bytes
  args : Bytes
  unparsedUri : Bytes
  headersIn : HeadersIn
  deriving DecidableEq, Repr

/-- The typed fields as nginx fills them from the header lines of a client: the
first line of each name, and every `Cookie` line. -/
def HeadersIn.ofLines (server : Bytes) (headers : List Header) : HeadersIn :=
  let first (name : Bytes) := (headers.find? fun h => h.named name).map Header.value
  { headers := headers
    server := server
    acceptEncoding := first (lit ['A', 'c', 'c', 'e', 'p', 't', '-', 'E', 'n', 'c', 'o', 'd',
      'i', 'n', 'g'])
    userAgent := first (lit ['U', 's', 'e', 'r', '-', 'A', 'g', 'e', 'n', 't'])
    authorization := first (lit ['A', 'u', 't', 'h', 'o', 'r', 'i', 'z', 'a', 't', 'i', 'o', 'n'])
    cookie := (headers.filter fun h => h.named (lit ['C', 'o', 'o', 'k', 'i', 'e'])).map
      Header.value }

/-- `ngx_http_cache_turbo_req_header`: the value of the first live header of a name,
empty when there is none. -/
def reqHeader (r : Request) (name : Bytes) : Bytes :=
  match r.headersIn.headers.find? fun h => h.hash != 0 && h.named name with
  | some h => h.value
  | none => []

end Http
end CacheTurbo
