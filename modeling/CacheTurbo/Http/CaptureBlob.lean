/-
# The blob of a captured response

The snapshot of a response (`ngx_http_cache_turbo_header_filter_do_capture` and
`_body_filter_capture`) and the blob that `ngx_http_cache_turbo_body_filter_store_tail`
makes of it: the measuring pass sizes the buffer, the writing pass fills it.  How
nginx renders a time is a parameter.  The main result is that the blob reads back
as it was captured.
-/

import CacheTurbo.Http.StoreTail
import CacheTurbo.Blob.Headers

namespace CacheTurbo
namespace Http

open Bytes Blob
open Shm (getU32)

/-! ## The snapshot -/

/-- The class of an encoded body: `gzip`, `br` or `zstd`. -/
structure EncodedClass where
  cls : ℕ
  known : 1 ≤ cls ∧ cls ≤ 3

/-- `ngx_http_cache_turbo_response_ae_class`, for the `Content-Encoding` of the response. -/
def responseAeClass (contentEncoding : Option Bytes) : Option EncodedClass :=
  match contentEncoding with
  | none => none
  | some ce =>
      if eqFold ce (lit ['z', 's', 't', 'd']) then some ⟨3, by decide⟩
      else if eqFold ce (lit ['b', 'r']) then some ⟨2, by decide⟩
      else if eqFold ce (lit ['g', 'z', 'i', 'p']) then some ⟨1, by decide⟩
      else none

/-- `ngx_http_cache_turbo_capture_encoded_ok`: the class that is captured. -/
def captureEncodedOk (keyEncodedOrigin : Bool) (contentEncoding : Option Bytes) :
    Option EncodedClass :=
  if keyEncodedOrigin then responseAeClass contentEncoding else none

/-- The body that has been captured: the chain, and the running count of its bytes. -/
structure CapturedBody where
  chain : List Bytes
  len : ℕ
  counted : len = chain.flatten.length

/-- No body yet. -/
def CapturedBody.empty : CapturedBody := ⟨[], 0, rfl⟩

/-- The scan of `ngx_http_cache_turbo_body_filter_capture` over the buffers of one call,
where `total` bytes have been counted; `none` is an oversize capture. -/
def captureScan (maxSize bodyLen : ℕ) : List Bytes → ℕ → Option ℕ
  | [], total => some total
  | b :: bs, total =>
      if b.length > 0 then
        if maxSize > 0 ∧ (total > maxSize ∨ b.length > maxSize - total ∨
            bodyLen > maxSize - total - b.length) then none
        else captureScan maxSize bodyLen bs (total + b.length)
      else captureScan maxSize bodyLen bs total

theorem captureScan_total {maxSize bodyLen : ℕ} {bs : List Bytes} {total n : ℕ}
    (h : captureScan maxSize bodyLen bs total = some n) :
    n = total + (bs.filter fun b => b.length > 0).flatten.length := by
  induction bs generalizing total with
  | nil =>
    obtain rfl := Option.some.inj h
    rfl
  | cons b bs ih =>
    unfold captureScan at h
    by_cases hb : b.length > 0
    · rw [if_pos hb] at h
      split_ifs at h
      have hrest := ih h
      rw [List.filter_cons_of_pos (by simpa using hb), List.flatten_cons, List.length_append]
      omega
    · rw [if_neg hb] at h
      rw [List.filter_cons_of_neg (by simpa using hb)]
      exact ih h

/-- `ngx_http_cache_turbo_body_filter_capture` on buffers in memory: the empty ones are left
out, and `none` abandons the capture. -/
def bodyFilterCapture (maxSize : ℕ) (b : CapturedBody) (bufs : List Bytes) :
    Option CapturedBody :=
  match h : captureScan maxSize b.len bufs 0 with
  | none => none
  | some total => some
      { chain := b.chain ++ bufs.filter fun buf => buf.length > 0
        len := b.len + total
        counted := by
          rw [captureScan_total h, b.counted, List.flatten_append, List.length_append,
            Nat.zero_add] }

/-- What the context holds of a captured response. -/
structure Capture where
  status : ℕ
  headers : List TableElt
  contentType : Bytes
  body : CapturedBody
  brkOnly : Bool
  originEncoded : Option EncodedClass
  authShareable : Bool
  headDerived : Bool

/-! ## The blob -/

/-- The flags that `ngx_http_cache_turbo_body_filter_blob_write` stamps. -/
def captureFlags (c : Capture) : ℕ :=
  let flags := if c.brkOnly then blobfBreakerOnly else 0
  let flags := match c.originEncoded with
    | none => flags
    | some e => flags ||| blobfOriginEncoded ||| ((e.cls <<< 2) &&& blobfAeClassMask)
  let flags := if c.authShareable then flags ||| blobfAuthShareable else flags
  let flags := if c.headDerived then flags ||| blobfHeadDerived else flags
  flags ||| blobfHdrsVetted

/-- `ngx_http_cache_turbo_blob_hdr_write`: a date of another length is not written. -/
def blobHdrWriteTime (httpTime : Time → Bytes) (h : BlobHdr) : Bytes :=
  let date := httpTime h.created
  if date.length = blobDateLen then blobHdrWrite h date
  else (blobHdrWrite h ((date ++ List.replicate blobDateLen 0).take blobDateLen)).set 44 0

/-- The header of the blob, with what the measuring pass counted. -/
def captureBlobHdr (created : Time) (c : Capture) (m : Measured) (w : Windows) : BlobHdr :=
  { flags := captureFlags c
    status := c.status
    nheaders := m.nheaders
    headersLen := m.hdrBytes
    bodyLen := c.body.len
    created := created
    freshTtl := if w.ttl > 0 then w.ttl.toNat else 0
    staleTtl := w.staleWindow.toNat
    sieTtl := w.sieWindow.toNat }

/-- `ngx_http_cache_turbo_body_filter_blob_write`, from the snapshot. -/
def captureBlobWrite (conf : AdmitConf) (httpTime : Time → Bytes) (created : Time) (c : Capture)
    (m : Measured) (w : Windows) : Bytes :=
  blobHdrWriteTime httpTime (captureBlobHdr created c m w)
    ++ (writeHeaders conf c.headers c.contentType m.verdicts ++ c.body.chain.flatten)

/-- What the pool grants to the store: the map of the verdicts, and the buffer. -/
structure BlobPool where
  map : Bool
  buffer : Bool
  deriving DecidableEq, Repr

/-- The blob of `ngx_http_cache_turbo_body_filter_store_tail`, unless it is too large or has
no room. -/
def storeTailBlob (conf : AdmitConf) (maxSize : ℕ) (pool : BlobPool) (httpTime : Time → Bytes)
    (created : Time) (c : Capture) (w : Windows) : Option Bytes :=
  let m := measureHeaders conf pool.map c.headers c.contentType
  if m.hdrBytes > 0xFFFFFFFF ∨ c.body.len > 0xFFFFFFFF then none
  else if maxSize > 0 ∧ blobHdrWire + m.hdrBytes + c.body.len > maxSize then none
  else if pool.buffer then some (captureBlobWrite conf httpTime created c m w)
  else none

/-! ## Reading it back -/

/-- The flags of a capture fit, and they say of the encoding what validation asks. -/
theorem captureFlags_spec (c : Capture) :
    captureFlags c < 2 ^ 16 ∧
      hasFlag (captureFlags c) blobfOriginEncoded = c.originEncoded.isSome ∧
        flagsAeClass (captureFlags c) = (c.originEncoded.map EncodedClass.cls).getD 0 := by
  obtain ⟨_, _, _, _, brkOnly, originEncoded, authShareable, headDerived⟩ := c
  unfold captureFlags
  rcases originEncoded with _ | ⟨cls, hlow, hhigh⟩
  · dsimp only [Option.map_none, Option.getD_none, Option.isSome_none]
    cases brkOnly <;> cases authShareable <;> cases headDerived <;>
      simp only [reduceIte, Bool.false_eq_true] <;> decide
  · dsimp only [Option.map_some, Option.getD_some, Option.isSome_some]
    obtain rfl | rfl | rfl : cls = 1 ∨ cls = 2 ∨ cls = 3 := by omega
    all_goals cases brkOnly <;> cases authShareable <;> cases headDerived <;>
      simp only [reduceIte, Bool.false_eq_true] <;> decide

/-- The fields of the header are those of the capture. -/
theorem captureBlobHdr_fits {created : Time} {c : Capture} {m : Measured} {w : Windows}
    (hstatus : c.status ≤ 599) (hfit : w.Fit) (hcreated : 0 ≤ created ∧ created < 2 ^ 63)
    (hbytes : m.hdrBytes < 2 ^ 32) (hcount : 9 * m.nheaders ≤ m.hdrBytes)
    (hbody : c.body.len < 2 ^ 32) : (captureBlobHdr created c m w).Fits := by
  have hword : ∀ {t : ℤ}, 0 ≤ t ∧ t ≤ ttlMax → t.toNat < 2 ^ 32 := by
    intro t ht
    have hmax : t ≤ 4294967295 := ht.2
    omega
  constructor
  · exact (captureFlags_spec c).1
  · show c.status < 2 ^ 32
    omega
  · show m.nheaders < 2 ^ 32
    omega
  · exact hbytes
  · exact hbody
  · exact ⟨le_trans (by decide) hcreated.1, hcreated.2⟩
  · show (if w.ttl > 0 then w.ttl.toNat else 0) < 2 ^ 32
    split_ifs
    · exact hword hfit.ttl
    · decide
  · exact hword hfit.staleWindow
  · exact hword hfit.sieWindow

/-- A time that a response may have been stored at, seen from `now`: an epoch of the 64-bit
clock, at most one `forever` ahead. -/
def PlausibleEpoch (created now : Time) : Prop :=
  0 ≤ created ∧ created < 2 ^ 63 ∧ created ≤ now + foreverTtl

/-- The blob of `store_tail` is the one its blocks make. -/
theorem storeTailBlob_eq {conf : AdmitConf} {maxSize : ℕ} {pool : BlobPool}
    {httpTime : Time → Bytes} {created : Time} {c : Capture} {w : Windows} {blob : Bytes}
    (h : storeTailBlob conf maxSize pool httpTime created c w = some blob) :
    let m := measureHeaders conf pool.map c.headers c.contentType
    m.hdrBytes < 2 ^ 32 ∧ c.body.len < 2 ^ 32 ∧
      blob = captureBlobWrite conf httpTime created c m w := by
  unfold storeTailBlob at h
  dsimp only at h ⊢
  split_ifs at h with hbig
  exact ⟨by omega, by omega, (Option.some.inj h).symm⟩

/-- The store of a captured response goes on with this blob: where the buffer is granted and
the date has its length, it is the one of the store's model. -/
theorem storeTailBlob_eq_captureBlob {conf : AdmitConf} {store : CaptureConf} {pool : BlobPool}
    {httpTime : Time → Bytes} {created : Time} {c : Capture} (w : Windows)
    (hpool : pool.buffer = true) (hdate : (httpTime created).length = blobDateLen) :
    let m := measureHeaders conf pool.map c.headers c.contentType
    storeTailBlob conf store.maxSize pool httpTime created c w =
      captureBlob store created c.status
        { flags := captureFlags c
          nheaders := m.nheaders
          block := writeHeaders conf c.headers c.contentType m.verdicts
          body := c.body.chain.flatten
          date := httpTime created } w := by
  have hlength := writeHeaders_length conf pool.map c.headers c.contentType
  have hwrite : blobHdrWriteTime httpTime (captureBlobHdr created c
      (measureHeaders conf pool.map c.headers c.contentType) w) =
      blobHdrWrite (captureBlobHdr created c
        (measureHeaders conf pool.map c.headers c.contentType) w) (httpTime created) :=
    if_pos hdate
  unfold storeTailBlob captureBlob bodyFilterBlobWrite captureBlobWrite captureHdr
  dsimp only
  rw [hpool, hwrite, hlength, ← c.body.counted]
  rfl

/-- **A stored response reads back as it was captured.**  The measuring pass visits every
header and predicts the block that the writing pass fills, verdict for verdict; the blob is
as long as it was sized; the reader accepts it and finds the stored headers in their order
with the body, the status, the times and the flags of the capture; and without the vetted
bit it finds all of that and the flags without the bit. -/
theorem storeTailBlob_roundTrip {conf : AdmitConf} {maxSize : ℕ} {pool : BlobPool}
    {httpTime : Time → Bytes} {created now : Time} {c : Capture} {w : Windows} {blob : Bytes}
    (hstatus : 100 ≤ c.status ∧ c.status ≤ 599) (hfit : w.Fit) (hwindows : w.ttl ≤ w.staleWindow)
    (hcreated : PlausibleEpoch created now) (hdate : IsHttpDate (httpTime created))
    (hblob : storeTailBlob conf maxSize pool httpTime created c w = some blob) :
    let m := measureHeaders conf pool.map c.headers c.contentType
    let block := writeHeaders conf c.headers c.contentType m.verdicts
    let stored := admittedPairs conf c.headers c.contentType
    let hdr : BlobHdr :=
      { flags := captureFlags c
        status := c.status
        nheaders := stored.length
        headersLen := pairsBytes stored
        bodyLen := c.body.chain.flatten.length
        created := created
        freshTtl := w.ttl.toNat
        staleTtl := w.staleWindow.toNat
        sieTtl := w.sieWindow.toNat }
    (m.verdicts.nvisited = c.headers.length ∧
      (∀ idx h, c.headers[idx]? = some h →
        verdictGet conf m.verdicts idx h = admitted conf h) ∧
      m.hdrBytes = block.length ∧ block = stored.flatMap (fun p => ctPut p.1 p.2) ∧
      blob.length = blobHdrWire + m.hdrBytes + c.body.len) ∧
    blobValidate now blob = some ⟨hdr, stored.map pairHref, c.body.chain.flatten⟩ ∧
    blobValidate now (blobClearVetted blob) =
      some ⟨{ hdr with flags := clearVetted hdr.flags }, stored.map pairHref,
        c.body.chain.flatten⟩ := by
  obtain ⟨hbytes, hbody, rfl⟩ := storeTailBlob_eq hblob
  obtain ⟨hsize, hcount, hvisited, -⟩ :=
    measureHeaders_spec conf pool.map c.headers c.contentType
  have hnine := nine_mul_nheaders_le conf pool.map c.headers c.contentType
  have hlength := writeHeaders_length conf pool.map c.headers c.contentType
  have hrefs := blobHrefs_writeHeaders conf pool.map c.headers c.contentType hbytes
  have hfits : (captureBlobHdr created c
      (measureHeaders conf pool.map c.headers c.contentType) w).Fits :=
    captureBlobHdr_fits hstatus.2 hfit ⟨hcreated.1, hcreated.2.1⟩ hbytes hnine hbody
  have hfresh : (if w.ttl > 0 then w.ttl.toNat else 0) = w.ttl.toNat := by
    split_ifs with hpos
    · rfl
    · exact (Int.toNat_eq_zero.2 (not_lt.1 hpos)).symm
  have hok : HdrOk now (captureBlobHdr created c
      (measureHeaders conf pool.map c.headers c.contentType) w) := by
    obtain ⟨-, hencoded, hclass⟩ := captureFlags_spec c
    constructor
    · exact hstatus
    · show (if w.ttl > 0 then w.ttl.toNat else 0) ≤ w.staleWindow.toNat
      rw [hfresh]
      exact Int.toNat_le_toNat hwindows
    · show hasFlag (captureFlags c) blobfOriginEncoded = (flagsAeClass (captureFlags c) != 0)
      rw [hencoded, hclass]
      rcases c.originEncoded with _ | ⟨cls, hlow, hhigh⟩
      · rfl
      · exact (bne_iff_ne.2 (by
          show cls ≠ 0
          omega)).symm
    · exact ⟨hcreated.1, hcreated.2.2⟩
    · exact (Nat.le_div_iff_mul_le (by decide)).2 (by rw [Nat.mul_comm]; exact hnine)
  have hhdr : captureBlobHdr created c
      (measureHeaders conf pool.map c.headers c.contentType) w =
      { flags := captureFlags c
        status := c.status
        nheaders := (admittedPairs conf c.headers c.contentType).length
        headersLen := pairsBytes (admittedPairs conf c.headers c.contentType)
        bodyLen := c.body.chain.flatten.length
        created := created
        freshTtl := w.ttl.toNat
        staleTtl := w.staleWindow.toNat
        sieTtl := w.sieWindow.toNat } := by
    rw [captureBlobHdr, hsize, hcount, hfresh, c.body.counted]
  have hwrite : captureBlobWrite conf httpTime created c
      (measureHeaders conf pool.map c.headers c.contentType) w =
      blobHdrWrite (captureBlobHdr created c
        (measureHeaders conf pool.map c.headers c.contentType) w) (httpTime created) ++
        (writeHeaders conf c.headers c.contentType
          (measureHeaders conf pool.map c.headers c.contentType).verdicts ++
          c.body.chain.flatten) := by
    rw [captureBlobWrite, blobHdrWriteTime]
    exact congrArg (fun x => x ++ _) (if_pos hdate.length)
  have hvalid := blobValidate_write hfits hok hdate hlength c.body.counted.symm hrefs
  rw [← hwrite, hhdr] at hvalid
  refine ⟨⟨hvisited, fun idx h hget => verdictGet_measureHeaders conf pool.map _ hget,
    hlength.symm, writeHeaders_eq conf pool.map c.headers c.contentType, ?_⟩, hvalid, ?_⟩
  · rw [hwrite, List.length_append, List.length_append, blobHdrWrite_length _ hdate.length,
      hlength, c.body.counted, Nat.add_assoc]
  · rw [blobValidate_clearVetted, hvalid]
    rfl

/-- A page of two buffers: its cookie is not stored, and neither is the header that was taken
out. -/
def pageCapture : Capture :=
  { status := 200
    headers := [⟨1, etagName, lit ['"', 'v', '1', '"']⟩,
      ⟨1, lit ['S', 'e', 't', '-', 'C', 'o', 'o', 'k', 'i', 'e'], lit ['s', '=', '1']⟩,
      ⟨0, lit ['X'], lit ['y']⟩]
    contentType := lit ['t', 'e', 'x', 't', '/', 'h', 't', 'm', 'l']
    body := ⟨[lit ['h', 'e', 'l'], lit ['l', 'o']], 5, rfl⟩
    brkOnly := false
    originEncoded := none
    authShareable := false
    headDerived := false }

/-- `ngx_http_time` at second 1000. -/
def pageDate : Bytes :=
  lit ['T', 'h', 'u', ',', ' ', '0', '1', ' ', 'J', 'a', 'n', ' ', '1', '9', '7', '0', ' ', '0',
    '0', ':', '1', '6', ':', '4', '0', ' ', 'G', 'M', 'T']

theorem pageDate_isHttpDate : IsHttpDate pageDate := by
  have hall : pageDate.all (fun c => decide (32 ≤ c) && decide (c ≤ 126)) = true := rfl
  refine ⟨rfl, fun c hc => ?_⟩
  simpa using List.all_eq_true.1 hall c hc

/-- The page is read back from its blob, and so it is without the vetted bit. -/
theorem storeTailBlob_roundTrip_page :
    let conf : AdmitConf := ⟨false, []⟩
    let blob := captureBlobWrite conf (fun _ => pageDate) 1000 pageCapture
      (measureHeaders conf true pageCapture.headers pageCapture.contentType) ⟨60, 240, 0⟩
    (blobValidate 1000 blob).isSome ∧ (blobValidate 1000 (blobClearVetted blob)).isSome := by
  have hround := @storeTailBlob_roundTrip ⟨false, []⟩ 0 ⟨true, true⟩ (fun _ => pageDate) 1000 1000
    pageCapture ⟨60, 240, 0⟩ _ (by decide) ⟨by decide, by decide, by decide⟩ (by decide)
    ⟨by decide, by decide, by decide⟩ pageDate_isHttpDate rfl
  exact ⟨by rw [hround.2.1]; rfl, by rw [hround.2.2]; rfl⟩

end Http
end CacheTurbo
