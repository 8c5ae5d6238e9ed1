/-
# The blob format

A stored response is one byte string: a fixed header of 76 bytes, the response
headers, and the body (`ngx_http_cache_turbo_blob.c`).  `blobHdrWrite` writes the
fixed header and `blobValidate` is the only reader of the whole; the flag bits
are those of `ngx_http_cache_turbo_internal.h`.  How nginx renders a time is a
parameter of the writer: the 29 bytes of the `Date` field.
-/

import CacheTurbo.Shm.Evict
import CacheTurbo.Lib.Bytes
import Mathlib.Data.List.GetD

namespace CacheTurbo
namespace Blob

open Shm (getU32 getU64 timeOfU64)

/-! ## The format -/

/-- `NGX_HTTP_CACHE_TURBO_BLOB_MAGIC`. -/
def blobMagic : ℕ := 0x43544235

/-- `NGX_HTTP_CACHE_TURBO_BLOB_VERSION`. -/
def blobVersion : ℕ := 5

/-- `NGX_HTTP_CACHE_TURBO_BLOB_HDR_WIRE`. -/
def blobHdrWire : ℕ := 76

/-- `NGX_HTTP_CACHE_TURBO_BLOB_DATE_LEN`. -/
def blobDateLen : ℕ := 29

/-- `NGX_HTTP_CACHE_TURBO_BLOB_DATE_OFF`. -/
def blobDateOff : ℕ := 45

/-- `NGX_HTTP_CACHE_TURBO_HROLE_*`. -/
def hroleOther : ℕ := 0

def hroleContentType : ℕ := 1

def hroleEtag : ℕ := 2

def hroleLastModified : ℕ := 3

def hroleMax : ℕ := 3

/-- `NGX_HTTP_CACHE_TURBO_BLOBF_BREAKER_ONLY`. -/
def blobfBreakerOnly : ℕ := 0x0001

/-- `NGX_HTTP_CACHE_TURBO_BLOBF_ORIGIN_ENCODED`. -/
def blobfOriginEncoded : ℕ := 0x0002

/-- `NGX_HTTP_CACHE_TURBO_BLOBF_AE_CLASS_MASK`. -/
def blobfAeClassMask : ℕ := 0x000C

/-- `NGX_HTTP_CACHE_TURBO_BLOBF_AUTH_SHAREABLE`. -/
def blobfAuthShareable : ℕ := 0x0010

/-- `NGX_HTTP_CACHE_TURBO_BLOBF_HEAD_DERIVED`. -/
def blobfHeadDerived : ℕ := 0x0040

/-- Whether a flag is set. -/
def hasFlag (flags bit : ℕ) : Bool := flags &&& bit != 0

/-- The packed class of an origin-encoded body. -/
def flagsAeClass (flags : ℕ) : ℕ := (flags &&& blobfAeClassMask) >>> 2

/-- `NGX_HTTP_CACHE_TURBO_FOREVER_TTL`. -/
def foreverTtl : Time := 315360000

/-- `ngx_http_cache_turbo_get_u16`. -/
def getU16 (p : Bytes) (off : ℕ) : ℕ := (p.getD off 0).toNat ||| (p.getD (off + 1) 0).toNat <<< 8

/-- `ngx_http_cache_turbo_put_u16`. -/
def putU16 (v : ℕ) : Bytes := [v.toUInt8, (v >>> 8).toUInt8]

/-- `ngx_http_cache_turbo_put_u32`. -/
def putU32 (v : ℕ) : Bytes :=
  [v.toUInt8, (v >>> 8).toUInt8, (v >>> 16).toUInt8, (v >>> 24).toUInt8]

/-- `ngx_http_cache_turbo_put_u64`. -/
def putU64 (v : ℕ) : Bytes := putU32 (v % 2 ^ 32) ++ putU32 (v >>> 32)

/-- `ngx_http_cache_turbo_blob_hdr_t`. -/
structure BlobHdr where
  flags : ℕ
  status : ℕ
  nheaders : ℕ
  headersLen : ℕ
  bodyLen : ℕ
  created : Time
  freshTtl : ℕ
  staleTtl : ℕ
  sieTtl : ℕ
  deriving DecidableEq, Repr

/-- `ngx_http_cache_turbo_blob_href_t`. -/
structure Href where
  role : ℕ
  name : Bytes
  val : Bytes
  deriving DecidableEq, Repr

/-- `ngx_http_cache_turbo_blob_hdr_write`, for a `Date` of 29 bytes. -/
def blobHdrWrite (h : BlobHdr) (date : Bytes) : Bytes :=
  putU32 blobMagic ++ putU16 blobVersion ++ putU16 h.flags ++ putU32 h.status
    ++ putU32 h.nheaders ++ putU32 h.headersLen ++ putU32 h.bodyLen
    ++ putU64 (h.created % 2 ^ 64).toNat ++ putU32 h.freshTtl ++ putU32 h.staleTtl
    ++ putU32 h.sieTtl ++ [29] ++ date ++ [0, 0]

/-- One header of the block: its role, its name and its value. -/
def blobHeaderWrite (h : Href) : Bytes :=
  h.role.toUInt8 :: (putU32 h.name.length ++ h.name ++ (putU32 h.val.length ++ h.val))

/-! ## Reading the fields back -/

/-- A low part and a shifted high part are added. -/
theorem or_shiftLeft {a b n : ℕ} (ha : a < 2 ^ n) : a ||| b <<< n = a + b * 2 ^ n := by
  rw [Nat.or_comm, ← Nat.shiftLeft_add_eq_or_of_lt ha, Nat.shiftLeft_eq, Nat.add_comm]

theorem getU32_eq (p : Bytes) (off : ℕ) : getU32 p off = (p.getD off 0).toNat +
    (p.getD (off + 1) 0).toNat * 2 ^ 8 + (p.getD (off + 2) 0).toNat * 2 ^ 16 +
      (p.getD (off + 3) 0).toNat * 2 ^ 24 := by
  have h0 := (p.getD off 0).toNat_lt
  have h1 := (p.getD (off + 1) 0).toNat_lt
  have h2 := (p.getD (off + 2) 0).toNat_lt
  rw [getU32, @or_shiftLeft _ _ 8 (by omega), @or_shiftLeft _ _ 16 (by omega),
    @or_shiftLeft _ _ 24 (by omega)]

theorem getD_append_add (pre p : Bytes) (k : ℕ) :
    (pre ++ p).getD (pre.length + k) 0 = p.getD k 0 := by
  rw [List.getD_append_right _ _ _ _ (Nat.le_add_right _ _), Nat.add_sub_cancel_left]

theorem getU32_append (pre p : Bytes) (k : ℕ) :
    getU32 (pre ++ p) (pre.length + k) = getU32 p k := by
  simp only [getU32, getD_append_add, Nat.add_assoc]

theorem getU32_putU32 {v : ℕ} (hv : v < 2 ^ 32) (rest : Bytes) :
    getU32 (putU32 v ++ rest) 0 = v := by
  rw [getU32_eq]
  simp only [putU32, List.cons_append, List.getD_cons_zero, List.getD_cons_succ, Nat.zero_add,
    Nat.toUInt8_eq, UInt8.toNat_ofNat', Nat.shiftRight_eq_div_pow]
  omega

/-- A 32-bit field behind any prefix. -/
theorem getU32_at {pre : Bytes} {off v : ℕ} (hoff : pre.length = off) (hv : v < 2 ^ 32)
    (rest : Bytes) : getU32 (pre ++ (putU32 v ++ rest)) off = v := by
  have hread := getU32_append pre (putU32 v ++ rest) 0
  rw [Nat.add_zero, hoff] at hread
  rw [hread, getU32_putU32 hv]

/-- A 16-bit field behind any prefix. -/
theorem getU16_at {pre : Bytes} {off v : ℕ} (hoff : pre.length = off) (hv : v < 2 ^ 16)
    (rest : Bytes) : getU16 (pre ++ (putU16 v ++ rest)) off = v := by
  have h0 := getD_append_add pre (putU16 v ++ rest) 0
  have h1 := getD_append_add pre (putU16 v ++ rest) 1
  have hlow : (v.toUInt8).toNat = v % 256 := by simp
  rw [Nat.add_zero] at h0
  rw [getU16, ← hoff, h0, h1]
  simp only [putU16, List.cons_append, List.getD_cons_zero, List.getD_cons_succ,
    Nat.toUInt8_eq, UInt8.toNat_ofNat', Nat.shiftRight_eq_div_pow]
  rw [@or_shiftLeft _ _ 8 (by omega)]
  omega

/-- A 64-bit field behind any prefix. -/
theorem getU64_at {pre : Bytes} {off v : ℕ} (hoff : pre.length = off) (hv : v < 2 ^ 64)
    (rest : Bytes) : getU64 (pre ++ (putU64 v ++ rest)) off = v := by
  have hlow : v % 2 ^ 32 < 2 ^ 32 := Nat.mod_lt _ (by decide)
  have hhigh : v >>> 32 < 2 ^ 32 := by
    rw [Nat.shiftRight_eq_div_pow]
    omega
  have h0 : getU32 (pre ++ (putU64 v ++ rest)) off = v % 2 ^ 32 := by
    rw [putU64, List.append_assoc, getU32_at hoff hlow]
  have h1 : getU32 (pre ++ (putU64 v ++ rest)) (off + 4) = v >>> 32 := by
    have hlen : (pre ++ putU32 (v % 2 ^ 32)).length = off + 4 := by
      rw [List.length_append, hoff]
      rfl
    rw [putU64, List.append_assoc, ← List.append_assoc pre, getU32_at hlen hhigh]
  rw [getU64, h0, h1, or_shiftLeft hlow, Nat.shiftRight_eq_div_pow]
  omega

/-- The fields of a header fit their places in the format. -/
structure BlobHdr.Fits (h : BlobHdr) : Prop where
  flags : h.flags < 2 ^ 16
  status : h.status < 2 ^ 32
  nheaders : h.nheaders < 2 ^ 32
  headersLen : h.headersLen < 2 ^ 32
  bodyLen : h.bodyLen < 2 ^ 32
  created : -2 ^ 63 ≤ h.created ∧ h.created < 2 ^ 63
  freshTtl : h.freshTtl < 2 ^ 32
  staleTtl : h.staleTtl < 2 ^ 32
  sieTtl : h.sieTtl < 2 ^ 32

/-- A written blob begins with the magic and the version. -/
theorem blobHdrWrite_magic (h : BlobHdr) (date rest : Bytes) :
    getU32 (blobHdrWrite h date ++ rest) 0 = blobMagic ∧
      getU16 (blobHdrWrite h date ++ rest) 4 = blobVersion := by
  simp only [blobHdrWrite, List.append_assoc]
  exact ⟨getU32_putU32 (by decide) _, @getU16_at (putU32 blobMagic) 4 _ rfl (by decide) _⟩

theorem blobHdrWrite_length (h : BlobHdr) {date : Bytes} (hdate : date.length = blobDateLen) :
    (blobHdrWrite h date).length = blobHdrWire := by
  simp only [blobHdrWrite, putU16, putU64, List.length_append, List.length_cons,
    List.length_nil, hdate]
  rfl

/-- The fixed header of a blob, read without a check. -/
def blobHdrRead (blob : Bytes) : BlobHdr :=
  { flags := getU16 blob 6
    status := getU32 blob 8
    nheaders := getU32 blob 12
    headersLen := getU32 blob 16
    bodyLen := getU32 blob 20
    created := timeOfU64 (getU64 blob 24)
    freshTtl := getU32 blob 32
    staleTtl := getU32 blob 36
    sieTtl := getU32 blob 40 }

/-- A time goes through its 64-bit word. -/
theorem timeOfU64_word {t : ℤ} (hlow : -2 ^ 63 ≤ t) (hhigh : t < 2 ^ 63) :
    timeOfU64 (t % 2 ^ 64).toNat = t := by
  have hword : ∀ w : ℕ, ((w : ℤ) = t ∨ (w : ℤ) = t + 2 ^ 64) → timeOfU64 w = t := by
    intro w hw
    unfold timeOfU64
    by_cases hsmall : w < 2 ^ 63
    · rw [if_pos hsmall]
      show (w : ℤ) = t
      omega
    · rw [if_neg hsmall]
      show (w : ℤ) - 2 ^ 64 = t
      omega
  refine hword _ ?_
  omega

/-- What comes before the three lifetimes of a blob. -/
def blobHdrHead (h : BlobHdr) : Bytes :=
  putU32 blobMagic ++ putU16 blobVersion ++ putU16 h.flags ++ putU32 h.status
    ++ putU32 h.nheaders ++ putU32 h.headersLen ++ putU32 h.bodyLen
    ++ putU64 (h.created % 2 ^ 64).toNat

/-- The lifetimes of a blob read back. -/
theorem blobHdrWrite_windows {h : BlobHdr} (hfresh : h.freshTtl < 2 ^ 32)
    (hstale : h.staleTtl < 2 ^ 32) (hsie : h.sieTtl < 2 ^ 32) (date rest : Bytes) :
    getU32 (blobHdrWrite h date ++ rest) 32 = h.freshTtl ∧
      getU32 (blobHdrWrite h date ++ rest) 36 = h.staleTtl ∧
        getU32 (blobHdrWrite h date ++ rest) 40 = h.sieTtl := by
  let p₃₆ := blobHdrHead h ++ putU32 h.freshTtl
  let p₄₀ := p₃₆ ++ putU32 h.staleTtl
  let tail := putU32 h.sieTtl ++ ([29] ++ date ++ [0, 0] ++ rest)
  have hblob : blobHdrWrite h date ++ rest = p₄₀ ++ tail := by
    simp only [blobHdrWrite, blobHdrHead, p₃₆, p₄₀, tail, List.append_assoc]
  rw [hblob]
  refine ⟨?_, ?_, ?_⟩
  · have hread := @getU32_at (blobHdrHead h) 32 h.freshTtl rfl hfresh
    simp only [p₃₆, p₄₀, List.append_assoc] at hread ⊢
    exact hread _
  · have hread := @getU32_at p₃₆ 36 h.staleTtl rfl hstale
    simp only [p₄₀, List.append_assoc] at hread ⊢
    exact hread _
  · exact getU32_at rfl hsie _

/-- **The fixed header reads back as it was written.** -/
theorem blobHdrRead_write {h : BlobHdr} (hfits : h.Fits) (date rest : Bytes) :
    blobHdrRead (blobHdrWrite h date ++ rest) = h := by
  have hword : (h.created % 2 ^ 64).toNat < 2 ^ 64 := by omega
  obtain ⟨hfresh, hstale, hsie⟩ :=
    blobHdrWrite_windows hfits.freshTtl hfits.staleTtl hfits.sieTtl date rest
  let p₆ := putU32 blobMagic ++ putU16 blobVersion
  let p₈ := p₆ ++ putU16 h.flags
  let p₁₂ := p₈ ++ putU32 h.status
  let p₁₆ := p₁₂ ++ putU32 h.nheaders
  let p₂₀ := p₁₆ ++ putU32 h.headersLen
  let p₂₄ := p₂₀ ++ putU32 h.bodyLen
  let p₃₂ := p₂₄ ++ putU64 (h.created % 2 ^ 64).toNat
  let tail := putU32 h.freshTtl ++ (putU32 h.staleTtl ++
    (putU32 h.sieTtl ++ ([29] ++ date ++ [0, 0] ++ rest)))
  have hblob : blobHdrWrite h date ++ rest = p₃₂ ++ tail := by
    simp only [blobHdrWrite, p₆, p₈, p₁₂, p₁₆, p₂₀, p₂₄, p₃₂, tail, List.append_assoc]
  obtain ⟨flags, status, nheaders, headersLen, bodyLen, created, freshTtl, staleTtl, sieTtl⟩ := h
  simp only [blobHdrRead, BlobHdr.mk.injEq]
  refine ⟨?_, ?_, ?_, ?_, ?_, ?_, hfresh, hstale, hsie⟩
  all_goals rw [hblob]
  · have hread := @getU16_at p₆ 6 flags rfl hfits.flags
    simp only [p₈, p₁₂, p₁₆, p₂₀, p₂₄, p₃₂, List.append_assoc] at hread ⊢
    exact hread _
  · have hread := @getU32_at p₈ 8 status rfl hfits.status
    simp only [p₁₂, p₁₆, p₂₀, p₂₄, p₃₂, List.append_assoc] at hread ⊢
    exact hread _
  · have hread := @getU32_at p₁₂ 12 nheaders rfl hfits.nheaders
    simp only [p₁₆, p₂₀, p₂₄, p₃₂, List.append_assoc] at hread ⊢
    exact hread _
  · have hread := @getU32_at p₁₆ 16 headersLen rfl hfits.headersLen
    simp only [p₂₀, p₂₄, p₃₂, List.append_assoc] at hread ⊢
    exact hread _
  · have hread := @getU32_at p₂₀ 20 bodyLen rfl hfits.bodyLen
    simp only [p₂₄, p₃₂, List.append_assoc] at hread ⊢
    exact hread _
  · have hread := @getU64_at p₂₄ 24 (created % 2 ^ 64).toNat rfl hword
    simp only [p₃₂, List.append_assoc] at hread ⊢
    rw [hread _, timeOfU64_word hfits.created.1 hfits.created.2]

/-! ## Validation -/

/-- `ngx_http_cache_turbo_blob_next_header`: one header, and the rest of the block. -/
def blobNextHeader (p : Bytes) : Option (Href × Bytes) :=
  if p.length < 9 then none
  else
    let role := (p.getD 0 0).toNat
    if role > hroleMax then none
    else
      let p := p.drop 1
      let nlen := getU32 p 0
      let p := p.drop 4
      if p.length < nlen then none
      else
        let name := p.take nlen
        let p := p.drop nlen
        if p.length < 4 then none
        else
          let vlen := getU32 p 0
          let p := p.drop 4
          if p.length < vlen then none
          else some (⟨role, name, p.take vlen⟩, p.drop vlen)

/-- The header walk of `blob_validate`. -/
def blobHrefs : ℕ → Bytes → Option (List Href)
  | 0, _ => some []
  | n + 1, p =>
      match blobNextHeader p with
      | none => none
      | some (h, rest) => (blobHrefs n rest).map fun hs => h :: hs

/-- What `blob_validate` gives its caller. -/
structure ValidBlob where
  hdr : BlobHdr
  refs : List Href
  body : Bytes
  deriving DecidableEq, Repr

/-- The checks of `blob_validate` on the fixed header, in the order of the source: a
blob that meets one of them is refused. -/
def blobHdrRefused (now : Time) (blob : Bytes) : Bool :=
  let h := blobHdrRead blob
  decide (blob.length < blobHdrWire)
    || decide (getU32 blob 0 ≠ blobMagic ∨ getU16 blob 4 ≠ blobVersion)
    || decide (h.status < 100 ∨ h.status > 599)
    || decide (h.staleTtl < h.freshTtl)
    || (hasFlag h.flags blobfOriginEncoded != (flagsAeClass h.flags != 0))
    || decide (h.created < 0 ∨ h.created > now + foreverTtl)
    || decide ((blob.getD 44 0).toNat ≠ blobDateLen)
    || ((blob.drop blobDateOff).take blobDateLen).any (fun c => c < 32 || c > 126)
    || decide (h.headersLen > blob.length - blobHdrWire ∨
        h.bodyLen > blob.length - blobHdrWire - h.headersLen)
    || decide (h.nheaders > h.headersLen / 9)

/-- `ngx_http_cache_turbo_blob_validate` at time `now`. -/
def blobValidate (now : Time) (blob : Bytes) : Option ValidBlob :=
  if blobHdrRefused now blob then none
  else
    let h := blobHdrRead blob
    let block := (blob.drop blobHdrWire).take h.headersLen
    (blobHrefs h.nheaders block).map fun refs =>
      { hdr := h
        refs := refs
        body := (blob.drop (blobHdrWire + h.headersLen)).take h.bodyLen }

/-- A blob that validates has its fixed header, and that is the header it is read with. -/
theorem blobValidate_hdr {now : Time} {blob : Bytes} {v : ValidBlob}
    (h : blobValidate now blob = some v) :
    blob.length ≥ blobHdrWire ∧ v.hdr = blobHdrRead blob := by
  rw [blobValidate] at h
  by_cases hrefused : blobHdrRefused now blob
  · rw [if_pos hrefused] at h
    cases h
  · rw [if_neg hrefused] at h
    obtain ⟨refs, -, rfl⟩ := Option.map_eq_some_iff.1 h
    refine ⟨?_, rfl⟩
    by_contra hlen
    refine hrefused ?_
    rw [blobHdrRefused, decide_eq_true (not_le.1 hlen)]
    simp only [Bool.true_or]

end Blob
end CacheTurbo
