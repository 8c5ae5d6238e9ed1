/-
# Bytes from the second level

Whoever can write to the second level chooses the bytes a lookup there returns,
flags and header block included.  This file follows them through a node: into the
hands of the request that asked, into the zone and out of it again, and into the
snapshots kept for the breaker and for an origin error.  Each copy carries a ghost,
`foreign`, which tells where its bytes came from.

The invariant is that foreign bytes never have the vetted bit, because both
backends clear it on the way in and nothing writes into stored bytes afterwards.
What is sent from a blob without that bit is then checked pair by pair.
-/

import CacheTurbo.Http.MarkerGate
import CacheTurbo.Http.Restore
import CacheTurbo.Http.Revalidate
import CacheTurbo.Lib.TokenBag
import CacheTurbo.Shm.Lifetime
import CacheTurbo.Shm.Pins

namespace CacheTurbo
namespace Http

open Bytes Blob
open Shm (Zone Rbtree ZoneOp Answer Loans Record record)

/-! ## Clean values -/

/-- No end of line and no NUL. -/
def Clean (s : Bytes) : Prop := ∀ c ∈ s, c ≠ 13 ∧ c ≠ 10 ∧ c ≠ 0

theorem headerAdmissibleValue_iff {val : Bytes} : headerAdmissibleValue val = true ↔ Clean val := by
  simp [headerAdmissibleValue, Clean, and_assoc]

theorem headerAdmissible_clean {conf : AdmitConf} {name val : Bytes}
    (h : headerAdmissible conf name val = true) : Clean val := by
  rw [headerAdmissible, Bool.and_eq_true, Bool.and_eq_true] at h
  exact headerAdmissibleValue_iff.1 h.1.2

theorem Clean.subset {s t : Bytes} (h : Clean t) (hsub : ∀ c ∈ s, c ∈ t) : Clean s :=
  fun c hc => h c (hsub c hc)

theorem clean_nil : Clean [] := fun _ hc => absurd hc (List.not_mem_nil)

/-! ## The content type -/

theorem unquoteCharset_subset (p : Bytes) : ∀ c ∈ unquoteCharset p, c ∈ p := by
  intro c hc
  unfold unquoteCharset at hc
  dsimp only at hc
  split_ifs at hc
  · exact List.mem_of_mem_drop ((List.dropLast_sublist _).subset hc)
  · exact List.mem_of_mem_drop hc
  · exact (List.dropLast_sublist _).subset hc
  · exact hc

/-- The charset is a part of the content type. -/
theorem charsetScan_subset {value cs : Bytes} : ∀ {pos len : ℕ},
    charsetScan pos value = some (len, cs) → ∀ c ∈ cs, c ∈ value := by
  induction value with
  | nil =>
    intro pos len h
    cases h
  | cons x rest ih =>
    intro pos len h c hc
    unfold charsetScan at h
    dsimp only at h
    split_ifs at h
    · exact List.mem_cons_of_mem _ (ih h c hc)
    · obtain ⟨-, rfl⟩ := Prod.mk.inj (Option.some.inj h)
      have hdrop := List.mem_of_mem_drop (unquoteCharset_subset _ c hc)
      exact List.mem_cons_of_mem _ ((List.dropWhile_suffix _).mem hdrop)
    · exact List.mem_cons_of_mem _ (ih h c hc)

theorem restoreContentType_clean (out : HeadersOut) {value : Bytes} (h : Clean value) :
    Clean (restoreContentType out value).contentType ∧
      Clean (restoreContentType out value).charset := by
  unfold restoreContentType
  split
  next typeLen charset hscan => exact ⟨h, h.subset (charsetScan_subset hscan)⟩
  next => exact ⟨h, clean_nil⟩

theorem restoreContentType_headers (out : HeadersOut) (value : Bytes) :
    (restoreContentType out value).headers = out.headers := by
  unfold restoreContentType
  split <;> rfl

/-! ## The loop over the pairs -/

/-- The pairs that are sent from a blob without the vetted bit. -/
def sentPair (conf : AdmitConf) (h : Href) : Bool :=
  headerAdmissible conf h.name h.val && h.role != hroleContentType

def Href.pair (h : Href) : Bytes × Bytes := (h.name, h.val)

/-- What the loop does to `headers_out`. -/
structure LoopSpec (conf : AdmitConf) (refs : List Href) (s s' : Restored) : Prop where
  headers : s'.out.headers = s.out.headers ++ (refs.filter (sentPair conf)).map Href.pair
  contentType : Clean s.out.contentType → Clean s'.out.contentType
  charset : Clean s.out.charset → Clean s'.out.charset
  etag : Clean s.etag → Clean s'.etag
  lastmod : Clean s.lastmod → Clean s'.lastmod

theorem LoopSpec.trans {conf : AdmitConf} {refs refs' : List Href} {s s' s'' : Restored}
    (h : LoopSpec conf refs s s') (h' : LoopSpec conf refs' s' s'') :
    LoopSpec conf (refs ++ refs') s s'' where
  headers := by
    rw [h'.headers, h.headers, List.filter_append, List.map_append, List.append_assoc]
  contentType hs := h'.contentType (h.contentType hs)
  charset hs := h'.charset (h.charset hs)
  etag hs := h'.etag (h.etag hs)
  lastmod hs := h'.lastmod (h.lastmod hs)

/-- One turn of the loop, for a blob that is not vetted: the pair is dropped, or it is
admissible. -/
theorem restoreHeader_spec (conf : AdmitConf) (s : Restored) (h : Href) :
    LoopSpec conf [h] s (restoreHeader conf false s h) := by
  by_cases hadm : headerAdmissible conf h.name h.val = true
  · have hclean := headerAdmissible_clean hadm
    unfold restoreHeader
    rw [hadm, if_neg (by simp)]
    by_cases hct : h.role = hroleContentType
    · -- the content type goes to its own field
      rw [if_pos hct]
      obtain ⟨htype, hcharset⟩ := restoreContentType_clean s.out hclean
      refine ⟨?_, fun _ => htype, fun _ => hcharset, id, id⟩
      simp only [restoreContentType_headers]
      simp [sentPair, hct]
    · have hsent : [h].filter (sentPair conf) = [h] := by simp [sentPair, hadm, hct]
      have hheaders : (addHeader s.out h.name h.val).headers =
          s.out.headers ++ ([h].filter (sentPair conf)).map Href.pair := by
        rw [hsent]
        rfl
      rw [if_neg hct]
      split_ifs
      · exact ⟨hheaders, id, id, fun _ => hclean, id⟩
      · exact ⟨hheaders, id, id, id, fun _ => hclean⟩
      · exact ⟨hheaders, id, id, id, id⟩
  · have hno : headerAdmissible conf h.name h.val = false := Bool.not_eq_true _ ▸ hadm
    have hdrop : restoreHeader conf false s h = { s with dropped := s.dropped + 1 } := by
      unfold restoreHeader
      rw [hno]
      rfl
    rw [hdrop]
    exact ⟨by simp [sentPair, hno], id, id, id, id⟩

/-- **The loop sends the admissible pairs**, in their order, and no others. -/
theorem foldl_restoreHeader_spec (conf : AdmitConf) (refs : List Href) (s : Restored) :
    LoopSpec conf refs s (refs.foldl (restoreHeader conf false) s) := by
  induction refs generalizing s with
  | nil => exact ⟨by simp, id, id, id, id⟩
  | cons h refs ih => exact (restoreHeader_spec conf s h).trans (ih _)

/-! ## The headers made here -/

/-- A header that a delivery makes itself. -/
inductive OwnHeader (env : RestoreEnv) : Bytes × Bytes → Prop
  | contentEncoding {cls : ℕ} {coding : Bytes} (h : aeClassName cls = some coding) :
      OwnHeader env (contentEncodingName, coding)
  | surrogateKey {v : Bytes} {seen : List Bytes} (hconf : env.conf.surrogateKey = true)
      (htag : env.tagval = some v) (hseen : ∀ tok ∈ seen, tok ∈ tagPieces [] v) :
      OwnHeader env (surrogateKeyName, [32].intercalate seen)
  | date {d : Bytes} (h : IsHttpDate d) : OwnHeader env (dateName, d)
  | age (n : ℕ) : OwnHeader env (ageName, decimal n)
  | xCache (reason : ServeReason) : OwnHeader env (xCacheName, xcacheStr reason)

theorem aeClassName_clean {cls : ℕ} {coding : Bytes} (h : aeClassName cls = some coding) :
    Clean coding := by
  unfold aeClassName at h
  split_ifs at h
  all_goals
    obtain rfl := Option.some.inj h
    simp [Clean, lit]

theorem xcacheStr_clean (reason : ServeReason) : Clean (xcacheStr reason) := by
  cases reason <;> simp [Clean, xcacheStr, lit]

theorem decimal_clean (n : ℕ) : Clean (decimal n) := by
  intro c hc
  refine ⟨?_, ?_, ?_⟩
  all_goals
    rintro rfl
    exact not_mem_decimal (by decide) n hc

theorem IsHttpDate.clean {d : Bytes} (h : IsHttpDate d) : Clean d := by
  intro c hc
  have hlow : (32 : UInt8).toNat ≤ c.toNat := UInt8.le_iff_toNat_le.1 (h.printable c hc).1
  refine ⟨?_, ?_, ?_⟩
  all_goals
    rintro rfl
    exact absurd hlow (by decide)

/-- A piece has no separator in it. -/
theorem tagPieces_plain {v cur tok : Bytes} (h : tok ∈ tagPieces cur v)
    (hcur : ∀ c ∈ cur, tagSep c = false) : ∀ c ∈ tok, tagSep c = false := by
  induction v generalizing cur with
  | nil =>
    rw [List.mem_singleton.1 h]
    exact hcur
  | cons x v ih =>
    unfold tagPieces at h
    split_ifs at h with hsep
    · rcases List.mem_cons.1 h with rfl | h
      · exact hcur
      · exact ih h fun c hc => absurd hc List.not_mem_nil
    · refine ih h fun c hc => ?_
      rcases List.mem_append.1 hc with hc | hc
      · exact hcur c hc
      · rw [List.mem_singleton.1 hc]
        exact Bool.not_eq_true _ ▸ hsep

/-- **The dedicated fields are clean**; the tags, which are the operator's own, do not end
a line. -/
theorem OwnHeader.clean {env : RestoreEnv} {p : Bytes × Bytes} (h : OwnHeader env p) :
    (∀ c ∈ p.2, c ≠ 13 ∧ c ≠ 10) ∧ (p.1 = surrogateKeyName ∨ Clean p.2) := by
  have hclean : ∀ {s : Bytes}, Clean s → (∀ c ∈ s, c ≠ 13 ∧ c ≠ 10) ∧
      (p.1 = surrogateKeyName ∨ Clean s) := fun hs =>
    ⟨fun c hc => ⟨(hs c hc).1, (hs c hc).2.1⟩, Or.inr hs⟩
  cases h with
  | contentEncoding h => exact hclean (aeClassName_clean h)
  | surrogateKey hconf htag hseen =>
    refine ⟨fun c hc => ?_, Or.inl rfl⟩
    rcases TokenBag.mem_intercalate hc with rfl | ⟨tok, htok, hmem⟩
    · exact ⟨by decide, by decide⟩
    · have hplain := tagPieces_plain (hseen tok htok) (fun c hc => absurd hc List.not_mem_nil) c hmem
      refine ⟨?_, ?_⟩
      all_goals
        rintro rfl
        exact absurd hplain (by decide)
  | date h => exact hclean (IsHttpDate.clean h)
  | age n => exact hclean (decimal_clean n)
  | xCache reason => exact hclean (xcacheStr_clean reason)

/-- The tags that are sent are pieces of the value. -/
theorem emitSurrogateKeyParse_subset {toks seen : List Bytes} {tok : Bytes}
    (h : tok ∈ emitSurrogateKeyParse toks seen) : tok ∈ toks ∨ tok ∈ seen := by
  induction toks generalizing seen with
  | nil => exact Or.inr h
  | cons t toks ih =>
    unfold emitSurrogateKeyParse at h
    split_ifs at h
    · exact Or.inr h
    · rcases ih h with ht | hs
      · exact Or.inl (List.mem_cons_of_mem _ ht)
      · exact Or.inr hs
    · rcases ih h with ht | hs
      · exact Or.inl (List.mem_cons_of_mem _ ht)
      · rcases List.mem_append.1 hs with hs | hs
        · exact Or.inr hs
        · exact Or.inl (List.mem_singleton.1 hs ▸ List.mem_cons_self)

/-- What a later part of the restore adds to `headers_out`. -/
structure Adds (env : RestoreEnv) (out out' : HeadersOut) : Prop where
  headers : ∃ own, out'.headers = out.headers ++ own ∧ ∀ p ∈ own, OwnHeader env p
  contentType : out'.contentType = out.contentType ∨ out'.contentType = []
  charset : out'.charset = out.charset

theorem Adds.refl (env : RestoreEnv) (out : HeadersOut) : Adds env out out :=
  ⟨⟨[], (List.append_nil _).symm, fun _ hp => absurd hp List.not_mem_nil⟩, Or.inl rfl, rfl⟩

theorem Adds.trans {env : RestoreEnv} {out out' out'' : HeadersOut} (h : Adds env out out')
    (h' : Adds env out' out'') : Adds env out out'' := by
  obtain ⟨own, hown, hall⟩ := h.headers
  obtain ⟨own', hown', hall'⟩ := h'.headers
  refine ⟨⟨own ++ own', by rw [hown', hown, List.append_assoc], fun p hp => ?_⟩, ?_,
    h'.charset.trans h.charset⟩
  · rcases List.mem_append.1 hp with hp | hp
    · exact hall p hp
    · exact hall' p hp
  · rcases h'.contentType with he | he
    · rw [he]
      exact h.contentType
    · exact Or.inr he

theorem adds_addHeader {env : RestoreEnv} (out : HeadersOut) {name val : Bytes}
    (h : OwnHeader env (name, val)) : Adds env out (addHeader out name val) := by
  refine ⟨⟨[(name, val)], rfl, fun p hp => ?_⟩, Or.inl rfl, rfl⟩
  rw [List.mem_singleton.1 hp]
  exact h

theorem restoreContentEncoding_adds (env : RestoreEnv) {flags : ℕ} {out out' : HeadersOut}
    (h : restoreContentEncoding flags out = some out') : Adds env out out' := by
  unfold restoreContentEncoding at h
  split_ifs at h
  · obtain ⟨coding, hcoding, rfl⟩ := Option.map_eq_some_iff.1 h
    exact adds_addHeader out (.contentEncoding hcoding)
  · obtain rfl := Option.some.inj h
    exact Adds.refl env out

theorem emitSurrogateKey_adds {env : RestoreEnv} (hconf : env.conf.surrogateKey = true)
    (out : HeadersOut) : Adds env out (emitSurrogateKey env.tagval out) := by
  unfold emitSurrogateKey
  cases htag : env.tagval with
  | none => exact Adds.refl env out
  | some v =>
    dsimp only
    split_ifs
    · exact Adds.refl env out
    · refine adds_addHeader out (.surrogateKey hconf htag fun tok htok => ?_)
      exact (emitSurrogateKeyParse_subset htok).resolve_right List.not_mem_nil

theorem restoreResponseFinalize_adds (env : RestoreEnv) (now : Time) (r : Request) (hdr : BlobHdr)
    {date : Bytes} (hdate : IsHttpDate date) (stale : Bool) (xcache : ServeReason)
    (etag lastmod : Bytes) (out : HeadersOut) :
    Adds env out
      (restoreResponseFinalize env now r hdr date stale xcache etag lastmod out).1 := by
  unfold restoreResponseFinalize
  dsimp only
  refine Adds.trans ?_ (adds_addHeader _ (.xCache xcache))
  refine Adds.trans ?_ (adds_addHeader _ (.age _))
  refine Adds.trans ?_ (adds_addHeader _ (.date hdate))
  have hranges : ∀ o : HeadersOut, Adds env o
      (if o.status = 200 ∧ o.contentLengthN.isSome then { o with allowRanges := true } else o) := by
    intro o
    split_ifs
    · exact ⟨⟨[], (List.append_nil _).symm, fun _ hp => absurd hp List.not_mem_nil⟩, Or.inl rfl, rfl⟩
    · exact Adds.refl env o
  refine Adds.trans ?_ (hranges _)
  have hmodified : ∀ (c : Bool) (o : HeadersOut),
      Adds env o (if c then toNotModified o else o) := by
    intro c o
    cases c with
    | false => exact Adds.refl env o
    | true =>
      exact ⟨⟨[], (List.append_nil _).symm, fun _ hp => absurd hp List.not_mem_nil⟩, Or.inr rfl, rfl⟩
  refine Adds.trans ?_ (hmodified _ _)
  split_ifs with hconf
  · exact emitSurrogateKey_adds hconf out
  · exact Adds.refl env out

/-- A 304 has no body, and any other answer the body of the blob. -/
theorem restoreResponseFinalize_bodyLen (env : RestoreEnv) (now : Time) (r : Request)
    (hdr : BlobHdr) (date : Bytes) (stale : Bool) (xcache : ServeReason) (etag lastmod : Bytes)
    (out : HeadersOut) :
    (restoreResponseFinalize env now r hdr date stale xcache etag lastmod out).2 ≤ hdr.bodyLen := by
  unfold restoreResponseFinalize
  dsimp only
  split_ifs
  · exact Nat.zero_le _
  · exact Nat.le_refl _

/-! ## What validation promises -/

theorem blobValidate_accepted {now : Time} {blob : Bytes} {v : ValidBlob}
    (h : blobValidate now blob = some v) : blobHdrRefused now blob = false := by
  cases hrefused : blobHdrRefused now blob with
  | false => rfl
  | true =>
    rw [blobValidate, if_pos hrefused] at h
    cases h

/-- The block and the body lie inside the blob. -/
theorem blobValidate_inside {now : Time} {blob : Bytes} {v : ValidBlob}
    (h : blobValidate now blob = some v) :
    blobHdrWire + v.hdr.headersLen + v.hdr.bodyLen ≤ blob.length := by
  obtain ⟨hlen, hhdr⟩ := blobValidate_hdr h
  have haccept := blobValidate_accepted h
  simp only [blobHdrRefused, Bool.or_eq_false_iff, decide_eq_false_iff_not] at haccept
  obtain ⟨⟨-, hsizes⟩, -⟩ := haccept
  rw [hhdr]
  omega

/-- The date of an accepted blob can be sent as it is. -/
theorem blobValidate_date {now : Time} {blob : Bytes} {v : ValidBlob}
    (h : blobValidate now blob = some v) :
    IsHttpDate ((blob.drop blobDateOff).take blobDateLen) := by
  obtain ⟨hlen, -⟩ := blobValidate_hdr h
  have haccept := blobValidate_accepted h
  simp only [blobHdrRefused, Bool.or_eq_false_iff, List.any_eq_false] at haccept
  obtain ⟨⟨⟨-, hprintable⟩, -⟩, -⟩ := haccept
  have hwire : 76 ≤ blob.length := hlen
  refine ⟨?_, fun c hc => ?_⟩
  · rw [List.length_take, List.length_drop]
    show min 29 (blob.length - 45) = 29
    omega
  · have hrange := hprintable c hc
    simpa using hrange

/-- An accepted blob that is origin-encoded names a coding. -/
theorem blobValidate_coding {now : Time} {blob : Bytes} {v : ValidBlob}
    (h : blobValidate now blob = some v) (hflag : hasFlag v.hdr.flags blobfOriginEncoded = true) :
    (aeClassName (flagsAeClass v.hdr.flags)).isSome := by
  obtain ⟨-, hhdr⟩ := blobValidate_hdr h
  have haccept := blobValidate_accepted h
  simp only [blobHdrRefused, Bool.or_eq_false_iff] at haccept
  obtain ⟨⟨⟨⟨⟨⟨-, hclass⟩, -⟩, -⟩, -⟩, -⟩, -⟩ := haccept
  rw [← hhdr, hflag] at hclass
  have hne : flagsAeClass v.hdr.flags ≠ 0 := by simpa using hclass
  have hlt : flagsAeClass v.hdr.flags < 4 := by
    have hle : v.hdr.flags &&& blobfAeClassMask ≤ 12 := Nat.and_le_right
    rw [flagsAeClass, Nat.shiftRight_eq_div_pow]
    omega
  unfold aeClassName
  simp only [aeClassZstd, aeClassBr, aeClassGzip]
  have hcases : flagsAeClass v.hdr.flags = 3 ∨ flagsAeClass v.hdr.flags = 2 ∨
      flagsAeClass v.hdr.flags = 1 := by omega
  rcases hcases with he | he | he
  all_goals rw [he]; rfl

/-! ## The buffers -/

/-- Buffers that follow one another from `lo` to `hi`. -/
def Tiles (hi : ℕ) : ℕ → List Buf → Prop
  | lo, [] => lo = hi
  | lo, b :: bs => b.pos = lo ∧ lo ≤ b.last ∧ Tiles hi b.last bs

theorem Tiles.within {hi : ℕ} {bs : List Buf} : ∀ {lo : ℕ}, Tiles hi lo bs →
    lo ≤ hi ∧ ∀ b ∈ bs, lo ≤ b.pos ∧ b.pos ≤ b.last ∧ b.last ≤ hi := by
  induction bs with
  | nil =>
    intro lo h
    exact ⟨Nat.le_of_eq h, fun b hb => absurd hb List.not_mem_nil⟩
  | cons b bs ih =>
    rintro lo ⟨hpos, hle, hrest⟩
    obtain ⟨hhi, hall⟩ := ih hrest
    refine ⟨Nat.le_trans hle hhi, fun c hc => ?_⟩
    rcases List.mem_cons.1 hc with rfl | hc
    · exact ⟨Nat.le_of_eq hpos.symm, hpos ▸ hle, hhi⟩
    · obtain ⟨h1, h2, h3⟩ := hall c hc
      exact ⟨Nat.le_trans hle h1, h2, h3⟩

/-- **The chain is the body**, cut into pieces: from its first byte to its last. -/
theorem serveChain_tiles (body bodyLen : ℕ) : ∀ {nbufs off : ℕ}, off ≤ bodyLen →
    nbufs = (bodyLen - off + serveChunk - 1) / serveChunk →
    Tiles (body + bodyLen) (body + off) (serveChain body bodyLen nbufs off) := by
  intro nbufs
  induction nbufs with
  | zero =>
    intro off hoff hn
    have hchunk : serveChunk = 32768 := rfl
    rw [hchunk] at hn
    show body + off = body + bodyLen
    omega
  | succ n ih =>
    intro off hoff hn
    have hchunk : serveChunk = 32768 := rfl
    rw [hchunk] at hn
    unfold serveChain
    dsimp only
    rw [hchunk]
    by_cases hlong : bodyLen - off > 32768
    · rw [if_pos hlong]
      refine ⟨rfl, Nat.le_add_right _ _, ?_⟩
      show Tiles (body + bodyLen) (body + off + 32768) _
      rw [Nat.add_assoc]
      refine ih (by omega) ?_
      rw [hchunk]
      omega
    · have hlast : n = 0 := by omega
      rw [if_neg hlong, hlast]
      refine ⟨rfl, Nat.le_add_right _ _, ?_⟩
      show body + off + (bodyLen - off) = body + bodyLen
      omega

/-! ## An answer from a blob without the vetted bit -/

/-- The vetted bit is clear, if there is a header at all. -/
def Unvetted (blob : Bytes) : Prop :=
  blobHdrWire ≤ blob.length → hasFlag (blobFlags blob) blobfHdrsVetted = false

theorem unvetted_blobClearVetted (blob : Bytes) : Unvetted (blobClearVetted blob) := by
  intro hlen
  by_cases hshort : blob.length < blobHdrWire
  · have hsame : blobClearVetted blob = blob := if_pos hshort
    rw [hsame] at hlen
    exact absurd hshort (Nat.not_lt.2 hlen)
  · have hmask : (0xFFFF ^^^ blobfHdrsVetted) &&& blobfHdrsVetted = 0 := by decide
    have hflags := blobClearVetted_flags hshort
    rw [hasFlag, blobFlags, hflags, clearVetted, Nat.and_assoc, hmask, Nat.and_zero]
    rfl

/-- **What may be sent of bytes nobody vouches for**: pairs that the location admits, the
headers made here, clean fields, and a body that lies inside the blob behind its headers. -/
structure Checked (env : RestoreEnv) (copy : Bytes) (a : Answered) : Prop where
  headers : ∃ pairs own, a.out.headers = pairs ++ own ∧
    (∀ p ∈ pairs, headerAdmissible env.conf p.1 p.2 = true) ∧
      ∀ p ∈ own, OwnHeader env p ∧ (∀ c ∈ p.2, c ≠ 13 ∧ c ≠ 10) ∧
        (p.1 = surrogateKeyName ∨ Clean p.2)
  contentType : Clean a.out.contentType
  charset : Clean a.out.charset
  serveBody : ∀ head, ∀ b ∈ serveBufs a head, blobHdrWire ≤ b.pos ∧ b.pos ≤ b.last ∧
    b.last ≤ copy.length
  sieBody : ∀ b ∈ sieEmit a, blobHdrWire ≤ b.pos ∧ b.pos ≤ b.last ∧ b.last ≤ copy.length

theorem restoreAnswer_checked {env : RestoreEnv} {now : Time} {r : Request} {copy : Bytes}
    {stale : Bool} {xcache : ServeReason} {a : Answered} (hcopy : Unvetted copy)
    (h : restoreAnswer env now r copy stale xcache = some a) : Checked env copy a := by
  obtain ⟨v, hv, hrest⟩ := Option.bind_eq_some_iff.1 h
  obtain ⟨out, hout, rfl⟩ := Option.map_eq_some_iff.1 hrest
  obtain ⟨hlen, hhdr⟩ := blobValidate_hdr hv
  have hvetted : hasFlag v.hdr.flags blobfHdrsVetted = false := by
    rw [hhdr]
    exact hcopy hlen
  have hloop := foldl_restoreHeader_spec env.conf v.refs ⟨restoreResponsePrologue v.hdr, [], [], 0⟩
  rw [restoreResponseHeaders, hvetted] at hout
  rw [restoreResponseHeaders, hvetted]
  set s := v.refs.foldl (restoreHeader env.conf false) ⟨restoreResponsePrologue v.hdr, [], [], 0⟩
  have hcoding := restoreContentEncoding_adds env hout
  have hfin := restoreResponseFinalize_adds env now r v.hdr (blobValidate_date hv) stale xcache
    s.etag s.lastmod out
  have hbodyLen := restoreResponseFinalize_bodyLen env now r v.hdr
    ((copy.drop blobDateOff).take blobDateLen) stale xcache s.etag s.lastmod out
  have hinside := blobValidate_inside hv
  have hadds := hcoding.trans hfin
  obtain ⟨own, hown, hall⟩ := hadds.headers
  have hend : ∀ n ≤ v.hdr.bodyLen, blobHdrWire + v.hdr.headersLen + n ≤ copy.length := by
    intro n hn
    omega
  refine ⟨⟨(v.refs.filter (sentPair env.conf)).map Href.pair, own, ?_, ?_,
    fun p hp => ⟨hall p hp, (hall p hp).clean⟩⟩, ?_, ?_, ?_, ?_⟩
  · rw [hown, hloop.headers]
    rfl
  · intro p hp
    obtain ⟨ref, href, rfl⟩ := List.mem_map.1 hp
    have hsent := (List.mem_filter.1 href).2
    rw [sentPair, Bool.and_eq_true] at hsent
    exact hsent.1
  · rcases hadds.contentType with he | he
    · rw [he]
      exact hloop.contentType clean_nil
    · rw [he]
      exact clean_nil
  · rw [hadds.charset]
    exact hloop.charset clean_nil
  · intro head b hb
    unfold serveBufs at hb
    split_ifs at hb
    · exact absurd hb List.not_mem_nil
    · have htiles := serveChain_tiles (blobHdrWire + v.hdr.headersLen)
        (restoreResponseFinalize env now r v.hdr ((copy.drop blobDateOff).take blobDateLen) stale
          xcache s.etag s.lastmod out).2 (Nat.zero_le _) rfl
      obtain ⟨h1, h2, h3⟩ := htiles.within.2 b hb
      exact ⟨by omega, h2, Nat.le_trans h3 (hend _ hbodyLen)⟩
  · intro b hb
    rw [List.mem_singleton.1 hb]
    exact ⟨Nat.le_add_right _ _, Nat.le_add_right _ _, hend _ hbodyLen⟩

/-- A blob that validates is answered: its coding is never one the restore does not know. -/
theorem restoreAnswer_isSome {now : Time} {copy : Bytes} {v : ValidBlob}
    (hv : blobValidate now copy = some v) (env : RestoreEnv) (r : Request) (stale : Bool)
    (xcache : ServeReason) : (restoreAnswer env now r copy stale xcache).isSome := by
  unfold restoreAnswer
  rw [hv, Option.bind_some]
  dsimp only
  rw [Option.isSome_map, restoreContentEncoding]
  split_ifs with hflag
  · rw [Option.isSome_map]
    exact blobValidate_coding hv hflag
  · rfl

/-! ## Deliveries -/

/-- Whether a delivery restores as stale: all do, but for a fresh hit. -/
def Delivered.stale (d : Delivered) : Bool := d.reason != .fresh

/-- What `deliver` answers with, when it answers. -/
def deliverAnswer (env : RestoreEnv) (pool : Pool) (now : Time) (r : Request) (copy : Bytes)
    (site : Site) : Option Answered :=
  match deliver pool now r copy site with
  | .done d => restoreAnswer env now r copy d.stale d.reason
  | .declined | .error => none

/-- **The flag is the one that `serve` is given**, with and without a reason of its own. -/
theorem serve_stale {pool : Pool} {now : Time} {r : Request} {copy : Bytes} {stale pinned : Bool}
    {xcache : ServeReason} {d : Delivered}
    (h : serve pool now r copy stale pinned xcache = .done d)
    (hx : xcache ≠ .none → stale = true ∧ xcache ≠ .fresh) : d.stale = stale := by
  have hreason : d.reason = serveReason stale xcache := by
    unfold serve at h
    split_ifs at h
    unfold restoreResponse at h
    cases hv : blobValidate now copy with
    | none =>
      rw [hv] at h
      cases h
    | some v =>
      rw [hv] at h
      dsimp only at h
      split_ifs at h
      · cases h
        rfl
      · cases h
  rw [Delivered.stale, hreason, serveReason]
  by_cases hnone : xcache = .none
  · rw [if_neg (not_not.2 hnone)]
    cases stale <;> rfl
  · obtain ⟨rfl, hfresh⟩ := hx hnone
    rw [if_pos hnone]
    simpa using hfresh

/-! ## The node -/

/-- A copy of a stored response; `foreign` is a ghost: the bytes came from the second
level. -/
structure Copy where
  bytes : Bytes
  foreign : Bool
  deriving DecidableEq

/-- The copies that the context of a request has: the reply of the second level, the two
snapshots taken from it, and the bodies of the zone it has a reference on (the ones it serves,
and its snapshots of those). -/
structure BlobCtx where
  l2Blob : Option Copy
  l2Result : Rc
  l2Done : Bool
  brkSnap : Option Copy
  sieSnap : Option Copy
  pinned : List Copy

/-- A context as it is allocated. -/
def BlobCtx.fresh : BlobCtx := ⟨none, .ok, false, none, none, []⟩

/-- Everything that may be delivered. -/
def BlobCtx.copies (ctx : BlobCtx) : List Copy :=
  ctx.l2Blob.toList ++ (ctx.brkSnap.toList ++ (ctx.sieSnap.toList ++ ctx.pinned))

/-- The end of a `GET`: `room` is whether the pool has room for the copy. -/
def getFinish (room : Bool) (result : Rc) (blob : Bytes) (ctx : BlobCtx) : BlobCtx :=
  if result = .ok ∧ blob.length > 0 then
    if room then
      { ctx with
        l2Blob := some ⟨blobClearVetted blob, true⟩
        l2Result := .ok
        l2Done := true }
    else { ctx with l2Result := .error, l2Done := true }
  else { ctx with l2Result := result, l2Done := true }

/-- `ngx_http_cache_turbo_redis_get_finish`. -/
def redisGetFinish := getFinish

/-- `ngx_http_cache_turbo_mc_get_finish`. -/
def mcGetFinish := getFinish

instance (answer : Answer) : Decidable answer.ok :=
  match answer with
  | .stored rc _ => inferInstanceAs (Decidable (rc = .ok))
  | .code rc => inferInstanceAs (Decidable (rc = .ok))
  | .done | .flag _ | .claimed _ | .resolved _ _ | .l1 _ | .purged _ _ =>
      inferInstanceAs (Decidable False)

/-- The zone with its loans, the ghost of each digest, and the contexts of the requests. -/
structure Ingress where
  loans : Loans
  foreign : KeyHash → Bool
  ctx : ℕ → BlobCtx

/-- What happens next. -/
inductive IngressEvent
  /-- A reply, with whatever bytes the backend sends. -/
  | redisReply (q : ℕ) (room : Bool) (result : Rc) (blob : Bytes)
  | memcachedReply (q : ℕ) (room : Bool) (result : Rc) (blob : Bytes)
  /-- `ngx_http_cache_turbo_access_l2` on the reply: the verdicts of the request's bounds,
  whether the breaker's snapshot is wanted, and whether the pool has room for the other. -/
  | accessL2 (q : ℕ) (now : Time) (keyHash : KeyHash) (hash : UInt32)
      (l2FreshOk l2StaleOk brkArm room : Bool)
  /-- A marker reply is consumed, or the request waits again: `l2_blob = NULL`. -/
  | forgetL2 (q : ℕ)
  /-- A request begins, or is redirected. -/
  | begin (q : ℕ)
  /-- Anything else on the zone, for the request `q`; what it stores was made here. -/
  | zone (q : ℕ) (e : Shm.Event)

namespace Ingress

variable (rb : Rbtree)

/-- The ghost after an operation: it follows what is stored. -/
def retag (foreign : KeyHash → Bool) (now : Time) (op : ZoneOp) (answer : Answer) (tag : Bool) :
    KeyHash → Bool :=
  match op.writes now, op.key with
  | some _, some k => if answer.ok then Function.update foreign k tag else foreign
  | _, _ => foreign

/-- One operation on the zone for the request `q`, which stores bytes of the origin `tag`. -/
def runOp (s : Ingress) (q : ℕ) (now : Time) (op : ZoneOp) (tag : Bool) : Ingress :=
  let r := Shm.exec rb s.loans.zone now op
  let foreign := retag s.foreign now op r.2 tag
  let pins := r.2.pins.map fun b => Copy.mk (r.1.blob b).body (op.key.any foreign)
  { loans := s.loans.step rb (.op now op)
    foreign := foreign
    ctx := Function.update s.ctx q { s.ctx q with pinned := pins ++ (s.ctx q).pinned } }

/-- Write the context of the request `q`. -/
def setCtx (s : Ingress) (q : ℕ) (ctx : BlobCtx) : Ingress :=
  { s with ctx := Function.update s.ctx q ctx }

/-- The two snapshots of `ngx_http_cache_turbo_access_l2_expired_arm`. -/
def expiredArm (ctx : BlobCtx) (c : Copy) (brkArm sie room : Bool) : BlobCtx :=
  { ctx with
    brkSnap := if brkArm then some c else ctx.brkSnap
    sieSnap := if sie ∧ room ∧ ctx.sieSnap = none then some c else ctx.sieSnap }

/-- One event. -/
def step (s : Ingress) : IngressEvent → Ingress
  | .redisReply q room result blob => s.setCtx q (redisGetFinish room result blob (s.ctx q))
  | .memcachedReply q room result blob => s.setCtx q (mcGetFinish room result blob (s.ctx q))
  | .accessL2 q now keyHash hash l2FreshOk l2StaleOk brkArm room =>
      match (s.ctx q).l2Blob with
      | none => s
      | some c =>
          if (s.ctx q).l2Done ∧ (s.ctx q).l2Result = .ok then
            match Http.accessL2 now l2FreshOk l2StaleOk c.bytes with
            | .expired sie => s.setCtx q (expiredArm (s.ctx q) c brkArm sie room)
            | .promote remFresh remStale =>
                s.runOp rb q now (.storeIf keyHash hash c.bytes remFresh remStale .newer false)
                  c.foreign
            | .miss | .revalidate => s
          else s
  | .forgetL2 q => s.setCtx q { s.ctx q with l2Blob := none, l2Done := false }
  | .begin q => s.setCtx q .fresh
  | .zone q (.op now op) => s.runOp rb q now op false
  | .zone _ e => { s with loans := s.loans.step rb e }

/-! ## The invariant -/

/-- **Foreign bytes never have the vetted bit**, wherever they are. -/
structure Inv (s : Ingress) : Prop where
  loans : s.loans.Ok
  zone : ∀ k r, s.foreign k = true → record s.loans.zone k = some r → Unvetted r.body
  ctx : ∀ q, ∀ c ∈ (s.ctx q).copies, c.foreign = true → Unvetted c.bytes

theorem Inv.setCtx {s : Ingress} (h : s.Inv) {q : ℕ} {ctx : BlobCtx}
    (hctx : ∀ c ∈ ctx.copies, c.foreign = true → Unvetted c.bytes) : (s.setCtx q ctx).Inv := by
  refine ⟨h.loans, h.zone, fun q' => ?_⟩
  show ∀ c ∈ (Function.update s.ctx q ctx q').copies, _
  by_cases hq : q' = q
  · rw [hq, Function.update_self]
    exact hctx
  · rw [Function.update_of_ne hq]
    exact h.ctx q'

/-- A context whose copies are those of another, and perhaps one more. -/
theorem Inv.copies {s : Ingress} (h : s.Inv) {q : ℕ} {ctx : BlobCtx} (new : Copy)
    (hnew : new.foreign = true → Unvetted new.bytes)
    (hsub : ∀ c ∈ ctx.copies, c ∈ (s.ctx q).copies ∨ c = new) : (s.setCtx q ctx).Inv := by
  refine h.setCtx fun c hc hforeign => ?_
  rcases hsub c hc with hold | rfl
  · exact h.ctx q c hold hforeign
  · exact hnew hforeign

/-- **The way in**: a reply loses the bit before anyone can use it. -/
theorem Inv.getFinish {s : Ingress} (h : s.Inv) (q : ℕ) (room : Bool) (result : Rc)
    (blob : Bytes) : (s.setCtx q (Http.getFinish room result blob (s.ctx q))).Inv := by
  refine h.copies ⟨blobClearVetted blob, true⟩
    (fun _ => unvetted_blobClearVetted blob) fun c hc => ?_
  unfold Http.getFinish at hc
  split_ifs at hc
  · simp only [BlobCtx.copies, Option.toList_some, List.singleton_append, List.mem_cons] at hc
    rcases hc with rfl | hc
    · exact Or.inr rfl
    · exact Or.inl (List.mem_append_right _ hc)
  · exact Or.inl hc
  · exact Or.inl hc

/-- Whether an operation put its own bytes under a digest. -/
def Wrote (now : Time) (op : ZoneOp) (answer : Answer) (k : KeyHash) : Prop :=
  op.key = some k ∧ (∃ w, op.writes now = some w) ∧ answer.ok

theorem retag_wrote {foreign : KeyHash → Bool} {now : Time} {op : ZoneOp} {answer : Answer}
    {tag : Bool} {k : KeyHash} (h : Wrote now op answer k) :
    retag foreign now op answer tag k = tag := by
  obtain ⟨hk, ⟨w, hw⟩, hok⟩ := h
  simp only [retag, hk, hw, if_pos hok, Function.update_self]

theorem retag_other {foreign : KeyHash → Bool} {now : Time} {op : ZoneOp} {answer : Answer}
    {tag : Bool} {k : KeyHash} (h : ¬ Wrote now op answer k) :
    retag foreign now op answer tag k = foreign k := by
  cases hw : op.writes now with
  | none => simp only [retag, hw]
  | some w =>
    cases hk : op.key with
    | none => simp only [retag, hw, hk]
    | some k' =>
      simp only [retag, hw, hk]
      split_ifs with hok
      · have hne : k ≠ k' := by
          rintro rfl
          exact h ⟨hk, ⟨w, hw⟩, hok⟩
        rw [Function.update_of_ne hne]
      · rfl

/-- The records that the ghost calls foreign, after an operation. -/
theorem Inv.retag {s : Ingress} (h : s.Inv) (now : Time) (op : ZoneOp) {tag : Bool}
    (htag : tag = true → ∀ r, op.writes now = some r → Unvetted r.body) (k : KeyHash) (r : Record)
    (hforeign : Ingress.retag s.foreign now op (Shm.exec rb s.loans.zone now op).2 tag k = true)
    (hr : record (Shm.exec rb s.loans.zone now op).1 k = some r) : Unvetted r.body := by
  by_cases hwrote : Wrote now op (Shm.exec rb s.loans.zone now op).2 k
  · rw [retag_wrote hwrote] at hforeign
    obtain ⟨hk, ⟨w, hw⟩, hok⟩ := hwrote
    have hwritten := h.loans.wf.exec_written rb now hk hw hok
    rw [hwritten] at hr
    obtain rfl := Option.some.inj hr
    exact htag hforeign w hw
  · rw [retag_other hwrote] at hforeign
    rcases h.loans.wf.recordMove rb now op k with hlost | hkept | ⟨w, hk, hw, hok, -⟩ |
      ⟨freshTtl, staleTtl, old, -, -, hold, -, hnew⟩
    · rw [hlost] at hr
      cases hr
    · exact h.zone k r hforeign (hkept ▸ hr)
    · exact absurd ⟨hk, ⟨w, hw⟩, hok⟩ hwrote
    · -- a 304 moves the windows and leaves the bytes
      rw [hnew] at hr
      obtain rfl := Option.some.inj hr
      exact h.zone k old hforeign hold

theorem Inv.runOp {s : Ingress} (h : s.Inv) (q : ℕ) (now : Time) (op : ZoneOp) {tag : Bool}
    (htag : tag = true → ∀ r, op.writes now = some r → Unvetted r.body) :
    (s.runOp rb q now op tag).Inv := by
  have hzone := h.retag rb now op htag
  refine ⟨h.loans.step rb (.op now op), hzone, fun q' c hc => ?_⟩
  by_cases hq : q' = q
  · have hctx : (s.runOp rb q now op tag).ctx q' = { s.ctx q with
        pinned := ((Shm.exec rb s.loans.zone now op).2.pins.map fun b =>
          Copy.mk ((Shm.exec rb s.loans.zone now op).1.blob b).body
            (op.key.any (Ingress.retag s.foreign now op (Shm.exec rb s.loans.zone now op).2 tag)))
          ++ (s.ctx q).pinned } := by
      rw [hq]
      exact Function.update_self ..
    rw [hctx] at hc
    simp only [BlobCtx.copies, List.mem_append] at hc
    have hold : c ∈ (s.ctx q).copies → c.foreign = true → Unvetted c.bytes := h.ctx q c
    rcases hc with hc | hc | hc | hc | hc
    · exact hold (List.mem_append_left _ hc)
    · exact hold (List.mem_append_right _ (List.mem_append_left _ hc))
    · exact hold (List.mem_append_right _ (List.mem_append_right _ (List.mem_append_left _ hc)))
    · -- a reference just taken is on the record under the digest
      obtain ⟨b, hb, rfl⟩ := List.mem_map.1 hc
      obtain ⟨k, hk, hcarries⟩ := h.loans.wf.exec_pins rb now op b hb
      obtain ⟨r, hr, hbody⟩ := hcarries.record
      intro hforeign
      rw [hk] at hforeign
      show Unvetted ((Shm.exec rb s.loans.zone now op).1.blob b).body
      rw [← hbody]
      exact hzone k r hforeign hr
    · exact hold (List.mem_append_right _ (List.mem_append_right _ (List.mem_append_right _ hc)))
  · have hctx : (s.runOp rb q now op tag).ctx q' = s.ctx q' := Function.update_of_ne hq ..
    rw [hctx] at hc
    exact h.ctx q' c hc

/-- What happens to references moves no record. -/
theorem record_loans (loans : Loans) {e : Shm.Event} (he : ∀ now op, e ≠ .op now op) (k : KeyHash) :
    record (loans.step rb e).zone k = record loans.zone k := by
  have hsame : ∀ {z z' : Zone}, z'.links = z.links → z'.rest = z.rest →
      record z' k = record z k := by
    intro z z' hlinks hrest
    have hbody : ∀ b, (z'.blob b).body = (z.blob b).body := fun b =>
      congrArg Prod.snd (Shm.content_of_rest hrest b)
    have hcore : Shm.Core.record z' = Shm.Core.record z := by
      funext c
      simp only [Shm.Core.record, hbody]
    rw [record, record, Shm.view_of_links hlinks, hcore]
  cases e with
  | op now op => exact absurd rfl (he now op)
  | read b =>
    unfold Loans.step
    dsimp only
    split_ifs
    · exact hsame rfl rfl
    · rfl
  | release b =>
    unfold Loans.step
    dsimp only
    split_ifs
    · exact hsame rfl (Shm.rest_setBlob _ b rfl)
    · rfl
  | free job =>
    unfold Loans.step
    dsimp only
    split_ifs
    · exact hsame (Shm.links_freeBlob _ _ _) (Shm.rest_freeBlob _ _ _)
    · rfl

/-- **Every event keeps the invariant.** -/
theorem Inv.step {s : Ingress} (h : s.Inv) (e : IngressEvent) : (s.step rb e).Inv := by
  cases e with
  | redisReply q room result blob => exact h.getFinish q room result blob
  | memcachedReply q room result blob => exact h.getFinish q room result blob
  | accessL2 q now keyHash hash l2FreshOk l2StaleOk brkArm room =>
    unfold Ingress.step
    dsimp only
    cases hblob : (s.ctx q).l2Blob with
    | none => exact h
    | some c =>
      have hmem : c ∈ (s.ctx q).copies := by simp [BlobCtx.copies, hblob]
      dsimp only
      split_ifs
      · cases Http.accessL2 now l2FreshOk l2StaleOk c.bytes with
        | miss | revalidate => exact h
        | expired sie =>
          refine h.setCtx fun c' hc' => ?_
          have hsub : c' ∈ (s.ctx q).copies := by
            simp only [expiredArm, BlobCtx.copies, List.mem_append] at hc' ⊢
            have hl2 : c ∈ (s.ctx q).l2Blob.toList := by simp [hblob]
            rcases hc' with hc' | hc' | hc' | hc'
            · exact Or.inl hc'
            · split_ifs at hc'
              · rw [List.mem_singleton.1 hc']
                exact Or.inl hl2
              · exact Or.inr (Or.inl hc')
            · split_ifs at hc'
              · rw [List.mem_singleton.1 hc']
                exact Or.inl hl2
              · exact Or.inr (Or.inr (Or.inl hc'))
            · exact Or.inr (Or.inr (Or.inr hc'))
          exact h.ctx q c' hsub
        | promote remFresh remStale =>
          refine h.runOp rb q now _ fun hforeign r hr => ?_
          obtain rfl := Option.some.inj hr
          exact h.ctx q c hmem hforeign
      · exact h
  | forgetL2 q =>
    exact h.setCtx fun c hc => h.ctx q c (List.mem_append_right _ hc)
  | begin q => exact h.setCtx fun c hc => absurd hc List.not_mem_nil
  | zone q e =>
    have hloans : ∀ e, (∀ now op, e ≠ .op now op) →
        ({ s with loans := s.loans.step rb e } : Ingress).Inv := fun e he =>
      ⟨h.loans.step rb e, fun k r hforeign hr => h.zone k r hforeign
        ((record_loans rb s.loans he k).symm.trans hr), h.ctx⟩
    cases e with
    | op now op => exact h.runOp rb q now op fun hforeign => absurd hforeign Bool.false_ne_true
    | read b => exact hloans _ fun now op => by simp
    | release b => exact hloans _ fun now op => by simp
    | free job => exact hloans _ fun now op => by simp

/-- A node that begins. -/
def start (z : Zone) : Ingress := ⟨Loans.fresh z, fun _ => false, fun _ => .fresh⟩

/-- **Forged bytes never cross unchecked.**  After every run of a node, whatever bytes the
second level sent for whatever requests, a delivery of such bytes, from the reply itself, from
the zone or from a snapshot, at any site and for any request and location, sends only pairs the
location admits and headers made here, keeps the content type clean, and takes its body from
inside the blob. -/
theorem forged_checked (mem : Shm.Addr → Shm.Node) (blob : Shm.BlobId → Shm.Blob)
    (answers : ℕ → Option Shm.Addr) (sketch : Shm.Sketch) (admission : Bool) (breakerState : ℕ)
    (run : List IngressEvent) (q : ℕ) {c : Copy}
    (hc : c ∈ ((Run.after (step rb)
      (start (Shm.freshZone mem blob answers sketch admission breakerState)) run).ctx q).copies)
    (hforeign : c.foreign = true) (env : RestoreEnv) (pool : Pool) (now : Time) (r : Request)
    (site : Site) {a : Answered} (ha : deliverAnswer env pool now r c.bytes site = some a) :
    Checked env c.bytes a := by
  have hstart : (start (Shm.freshZone mem blob answers sketch admission breakerState)).Inv :=
    ⟨⟨Shm.Wf.freshZone mem blob answers sketch admission breakerState,
        fun job hjob => absurd hjob List.not_mem_nil⟩,
      fun k r hk => absurd hk Bool.false_ne_true, fun q c hc => absurd hc List.not_mem_nil⟩
  have hinv := Run.after_invariant (P := Inv) (fun _ e h => h.step rb e) hstart run
  have hunvetted := hinv.ctx q c hc hforeign
  unfold deliverAnswer at ha
  cases hd : deliver pool now r c.bytes site with
  | declined =>
    rw [hd] at ha
    cases ha
  | error =>
    rw [hd] at ha
    cases ha
  | done d =>
    rw [hd] at ha
    exact restoreAnswer_checked hunvetted ha

/-! ### A forged reply that is promoted -/

/-- A page whose writer claims that its headers were vetted: one of them ends the header
block and begins a second response. -/
def forgedBlob : Bytes :=
  let block := blobHeaderWrite ⟨hroleOther, lit ['X'], lit ['a', '\r', '\n', '\r', '\n', 'b']⟩ ++
    blobHeaderWrite ⟨hroleContentType, lit ['Y'], lit ['t', '/', 'h']⟩
  blobHdrWrite ⟨blobfHdrsVetted, 200, 2, block.length, 1, 0, 60, 60, 0⟩ (List.replicate 29 48) ++
    (block ++ lit ['!'])

/-- A request finds it in the second level, and another one in the zone. -/
def forgedRun : List IngressEvent :=
  [.redisReply 0 true .ok forgedBlob,
    .accessL2 0 5 (Vector.replicate 32 0) 0 true true false true,
    .zone 1 (.op 6 (.accessL1 (Vector.replicate 32 0) 0
      ⟨0, 1000, true, true, false, false, none, false, false, 5, true, false, false⟩))]

/-- A location, and a request without conditions. -/
def plainEnv : RestoreEnv := ⟨⟨false, []⟩, none, none, none, fun _ => none⟩

/-- What the second request gets: the forged pair is not in it. -/
def forgedAnswer : Answered :=
  { out :=
      { status := 200
        contentLengthN := some 1
        contentType := lit ['t', '/', 'h']
        contentTypeLen := 3
        charset := []
        headers := [(dateName, List.replicate 29 48), (ageName, lit ['6']),
          (xCacheName, lit ['H', 'I', 'T'])]
        allowRanges := true
        headerOnly := false }
    body := 105
    bodyLen := 1 }

theorem forged_checked_promoted :
    Checked plainEnv (blobClearVetted forgedBlob) forgedAnswer :=
  forged_checked Shm.Rbtree.unbalanced roomyZone.mem roomyZone.blob roomyZone.slab.answers
    roomyZone.sketch roomyZone.admission roomyZone.breakerState forgedRun 1
    (c := ⟨blobClearVetted forgedBlob, true⟩) (by decide +kernel) rfl plainEnv ⟨true, true⟩ 6
    (bareRequest [47]) .l1Fresh (by decide +kernel)

end Ingress
end Http
end CacheTurbo
