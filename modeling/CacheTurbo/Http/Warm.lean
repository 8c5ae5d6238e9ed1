/-
# Background subrequests

`ngx_http_cache_turbo_warm_one` launches a refresh: nginx clones the request as
a `GET`, `warm_rebuild_headers` drops the `Cookie` lines, and
`warm_inject_validators` appends the validator of the stored body the caller
holds (`ngx_http_cache_turbo_module.c`).  Only the half that a client's request
takes is here, not the one of an admin location; the bound on the refreshes in
flight and the allocations that can keep a refresh from starting are left out.
-/

import CacheTurbo.Http.Request
import CacheTurbo.Blob.Codec

namespace CacheTurbo
namespace Http

open Bytes Blob

/-! ## Names -/

def cookieName : Bytes := lit ['C', 'o', 'o', 'k', 'i', 'e']

def etagName : Bytes := lit ['E', 'T', 'a', 'g']

def lastModifiedName : Bytes :=
  lit ['L', 'a', 's', 't', '-', 'M', 'o', 'd', 'i', 'f', 'i', 'e', 'd']

def ifNoneMatchName : Bytes :=
  lit ['I', 'f', '-', 'N', 'o', 'n', 'e', '-', 'M', 'a', 't', 'c', 'h']

def ifModifiedSinceName : Bytes :=
  lit ['I', 'f', '-', 'M', 'o', 'd', 'i', 'f', 'i', 'e', 'd', '-', 'S', 'i', 'n', 'c', 'e']

/-- A stored header whose name is the literal `name`, in any case. -/
def hrefNamed (h : Href) (name : Bytes) : Bool :=
  h.name.length == name.length && eqFold h.name name

/-! ## The subrequest -/

/-- `ngx_http_cache_turbo_warm_rebuild_headers` for a location that is no admin
location: the list without its `Cookie` lines, and no cookies. -/
def warmRebuildHeaders (h : HeadersIn) : HeadersIn :=
  { h with
    headers := h.headers.filter fun line => !line.named cookieName
    cookie := [] }

/-- `ngx_http_cache_turbo_warm_add_validator`. -/
def warmAddValidator (h : HeadersIn) (name value : Bytes) : HeadersIn :=
  { h with headers := h.headers ++ [⟨1, name, value⟩] }

/-- The last stored header of a name, when it has a value. -/
def storedHeader (name : Bytes) (refs : List Href) : Option Bytes :=
  match (refs.filter fun h => hrefNamed h name).getLast? with
  | some h => if h.val.length > 0 then some h.val else none
  | none => none

/-- The header line that revalidates a body with these headers: its `ETag`, or else its
`Last-Modified`. -/
def validatorOf (refs : List Href) : Option (Bytes × Bytes) :=
  match storedHeader etagName refs, storedHeader lastModifiedName refs with
  | some etag, _ => some (ifNoneMatchName, etag)
  | none, some lastmod => some (ifModifiedSinceName, lastmod)
  | none, none => none

/-- The validator that `warm_inject_validators` finds in the pinned body `snap`. -/
def snapValidator (now : Time) (snap : Bytes) : Option (Bytes × Bytes) :=
  (blobValidate now snap).bind fun v => validatorOf v.refs

/-- `ngx_http_cache_turbo_warm_inject_validators` for the pinned body `snap`. -/
def warmInjectValidators (now : Time) (snap : Bytes) (h : HeadersIn) : HeadersIn :=
  match snapValidator now snap with
  | none => h
  | some nv => warmAddValidator h nv.1 nv.2

/-- The subrequest of `ngx_http_cache_turbo_warm_one` for the pinned body `snap`. -/
def warmOne (now : Time) (r : Request) (snap : Bytes) : Request :=
  { r with
    method := .get
    headersIn := warmInjectValidators now snap (warmRebuildHeaders r.headersIn) }

/-! ## What the subrequest keeps -/

/-- The validators touch nothing but the list. -/
theorem warmInjectValidators_fields (now : Time) (snap : Bytes) (h : HeadersIn) :
    { warmInjectValidators now snap h with headers := [] } = { h with headers := [] } := by
  unfold warmInjectValidators
  cases snapValidator now snap with
  | none => rfl
  | some nv => rfl

/-- The list of the subrequest: the client's lines without the cookies, then the validator
of the pinned body. -/
theorem warmOne_headers (now : Time) (r : Request) (snap : Bytes) :
    (warmOne now r snap).headersIn.headers =
      (r.headersIn.headers.filter fun line => !line.named cookieName) ++
        ((snapValidator now snap).map fun nv => (⟨1, nv.1, nv.2⟩ : Header)).toList := by
  unfold warmOne warmInjectValidators
  cases snapValidator now snap with
  | none => exact (List.append_nil _).symm
  | some nv => rfl

end Http
end CacheTurbo
