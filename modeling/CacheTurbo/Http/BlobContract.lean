/-
# What a validated blob may be used for

The readers of a blob rely on `ngx_http_cache_turbo_blob_validate` for the bounds they do not check
themselves: the places of the body and of the headers, the bytes of the date, and the times that are
subtracted from and added to the clock (`callerTimes`).  `Accepted` is that contract, for every
buffer.  In the other direction, whatever `ngx_http_cache_turbo_body_filter_store_tail` writes is
accepted.
-/

import CacheTurbo.Blob.Walk
import CacheTurbo.Http.CaptureBlob
import CacheTurbo.Http.FreshenSpec
import Mathlib.Algebra.Order.Ring.Int

namespace CacheTurbo
namespace Http
namespace BlobContract

open Blob Blob.Walk
open Shm (getU32 getU64 timeOfU64)

/-! ## The contract -/

/-- A time of the 64-bit clock, far enough from its end. -/
structure Clock (t : Time) : Prop where
  epoch : 0 ≤ t
  room : t + foreverTtl + 2 ^ 32 ≤ 2 ^ 63

/-- A value of `time_t`. -/
def InTime (t : Time) : Prop := -2 ^ 63 ≤ t ∧ t < 2 ^ 63

/-- What the readers of a header compute at `now`: the age, what remains of its lifetimes at that
age, the ends of its lifetimes, and their distances from the clock. -/
def callerTimes (h : BlobHdr) (now : Time) : List Time :=
  let age := now - h.created
  let aged := if age < 0 then 0 else age
  let freshUntil := h.created + h.freshTtl
  [age, h.freshTtl - aged, h.staleTtl - aged, freshUntil, freshUntil - now, now - freshUntil,
    h.created + h.sieTtl]

/-- What a caller may rely on. -/
structure Accepted (now : Time) (blob : Bytes) (p : Parsed) : Prop where
  block : p.hdrBlock = blobHdrWire ∧ p.body = p.hdrBlock + p.hdr.headersLen ∧
    p.body + p.hdr.bodyLen ≤ blob.length
  entries : ∃ refs, walk blob p.body p.hdr.nheaders p.hdrBlock = .ok refs ∧
    refs.length = p.hdr.nheaders ∧ Tiled p.body p.hdrBlock refs ∧
    (∀ r ∈ refs, p.hdrBlock + 5 ≤ r.name ∧ r.val = r.name + r.nlen + 4 ∧ r.val + r.vlen ≤ p.body ∧
      r.role ≤ hroleMax) ∧
    (refs.Pairwise fun r s => r.val + r.vlen + 5 ≤ s.name) ∧
    ∀ given, p.refs = some given → given = refs
  date : p.date + blobDateLen ≤ blob.length ∧ IsHttpDate ((blob.drop p.date).take blobDateLen)
  status : 100 ≤ p.hdr.status ∧ p.hdr.status ≤ 599
  windows : p.hdr.freshTtl ≤ p.hdr.staleTtl
  created : 0 ≤ p.hdr.created ∧ p.hdr.created ≤ now + foreverTtl
  times : Clock now → ∀ later, Clock later → ∀ t ∈ callerTimes p.hdr later, InTime t
  coding : flagsAeClass p.hdr.flags ≠ 0 ↔ hasFlag p.hdr.flags blobfOriginEncoded = true

theorem getU32_lt (p : Bytes) (off : ℕ) : getU32 p off < 2 ^ 32 := by
  have h0 := (p.getD off 0).toNat_lt
  have h1 := (p.getD (off + 1) 0).toNat_lt
  have h2 := (p.getD (off + 2) 0).toNat_lt
  have h3 := (p.getD (off + 3) 0).toNat_lt
  rw [getU32_eq]
  omega

/-- The arithmetic of the callers, for lifetimes of 32 bits. -/
theorem times_range {created now later fresh stale sie : ℤ} (hnow : now + 315360000 + 2 ^ 32 ≤ 2 ^ 63)
    (hlater : 0 ≤ later ∧ later + 315360000 + 2 ^ 32 ≤ 2 ^ 63)
    (hcreated : 0 ≤ created ∧ created ≤ now + 315360000) (hfresh : 0 ≤ fresh ∧ fresh < 2 ^ 32)
    (hstale : 0 ≤ stale ∧ stale < 2 ^ 32) (hsie : 0 ≤ sie ∧ sie < 2 ^ 32) {aged : ℤ}
    (haged : 0 ≤ aged ∧ (aged = 0 ∨ aged = later - created)) :
    ∀ t ∈ [later - created, fresh - aged, stale - aged, created + fresh, created + fresh - later,
      later - (created + fresh), created + sie], -2 ^ 63 ≤ t ∧ t < 2 ^ 63 := by
  simp only [List.forall_mem_cons]
  refine ⟨?_, ?_, ?_, ?_, ?_, ?_, ?_, fun t ht => absurd ht List.not_mem_nil⟩
  all_goals omega

theorem lt_of_room {t : ℤ} (h : t + 315360000 + 2 ^ 32 ≤ 2 ^ 63) : t < 2 ^ 63 := by omega

/-- **No time of a caller overflows**, for a header that was created in time. -/
theorem callerTimes_inTime {h : BlobHdr} {now later : Time} (hnow : Clock now)
    (hlater : Clock later) (hcreated : 0 ≤ h.created ∧ h.created ≤ now + foreverTtl)
    (hfresh : h.freshTtl < 2 ^ 32) (hstale : h.staleTtl < 2 ^ 32) (hsie : h.sieTtl < 2 ^ 32) :
    ∀ t ∈ callerTimes h later, InTime t := by
  have hword : ∀ {n : ℕ}, n < 2 ^ 32 → (0 : ℤ) ≤ n ∧ (n : ℤ) < 2 ^ 32 := by
    intro n hn
    omega
  refine times_range hnow.room ⟨hlater.epoch, hlater.room⟩ hcreated (hword hfresh) (hword hstale)
    (hword hsie) ?_
  by_cases hneg : later - h.created < 0
  · rw [if_pos hneg]
    exact ⟨le_refl _, Or.inl rfl⟩
  · rw [if_neg hneg]
    exact ⟨not_lt.1 hneg, Or.inr rfl⟩

theorem validate_accepted {now : Time} {blob : Bytes} (hlen : blob.length < 2 ^ 64)
    {form : RefsForm} {p : Parsed} (h : validate now blob form = .ok p) : Accepted now blob p := by
  rcases validate_spec now hlen form with ⟨-, hrefused⟩ | ⟨v, refs, hvalid, hwalk, hcall⟩
  · rw [hrefused] at h
    cases h
  · rw [hcall] at h
    rcases hplace : refsPlace form v.hdr.nheaders with stop | place
    · rw [hplace] at h
      cases h
    · rw [hplace] at h
      obtain rfl : parsed v place refs = p := Except.ok.inj h
      have hsound : HdrSound now blob := by
        refine hdrSound_of_not_refused ?_
        by_contra hrefused
        rw [blobValidate, if_pos (Bool.of_not_eq_false hrefused)] at hvalid
        cases hvalid
      obtain ⟨-, hhdr⟩ := blobValidate_hdr hvalid
      obtain ⟨hwire, hstatus, hwindows, hcoding, hcreated, hdate, hinside⟩ := hsound
      have hfresh : v.hdr.freshTtl < 2 ^ 32 := hhdr ▸ getU32_lt blob 32
      have hstale : v.hdr.staleTtl < 2 ^ 32 := hhdr ▸ getU32_lt blob 36
      have hsie : v.hdr.sieTtl < 2 ^ 32 := hhdr ▸ getU32_lt blob 40
      have hroom : 76 ≤ blob.length := hwire
      rw [← hhdr] at hstatus hwindows hcoding hcreated hinside
      constructor
      · exact ⟨rfl, rfl, hinside⟩
      · refine ⟨refs, hwalk.walk, hwalk.count, hwalk.tiled, hwalk.tiled.mem,
          hwalk.tiled.disjoint, fun given hgiven => ?_⟩
        change (if place = .nowhere then none else some refs) = some given at hgiven
        split_ifs at hgiven
        exact (Option.some.inj hgiven).symm
      · refine ⟨?_, hdate⟩
        show 45 + 29 ≤ blob.length
        omega
      · exact hstatus
      · exact hwindows
      · exact hcreated
      · exact fun hnow later hlater =>
          callerTimes_inTime hnow hlater hcreated hfresh hstale hsie
      · exact hcoding

/-! ## What is stored is accepted -/

theorem le_staleTtl {ttl : Time} (hpos : 0 ≤ ttl) (hle : ttl ≤ ttlMax) (staleMult : ℤ) :
    ttl ≤ staleTtl ttl staleMult := by
  have hmult := staleMult_pos staleMult
  unfold staleTtl
  dsimp only
  generalize (if staleMult ≤ 0 then staleMultiplier else staleMult) = mult at hmult ⊢
  split_ifs with hzero hbig
  · exact hzero
  · exact hle
  · exact le_mul_of_one_le_right hpos hmult

/-- No window of a body ends before its lifetime. -/
theorem bodyFilterWindows_ordered {store : CaptureConf} {resp : OriginResponse} {w : Windows}
    (h : bodyFilterWindows store resp = some w) : w.ttl ≤ w.staleWindow := by
  unfold bodyFilterWindows at h
  by_cases hneg : statusTtl store resp.status < 0
  · rw [if_pos hneg] at h
    cases h
  · rw [if_neg hneg] at h
    obtain rfl := Option.some.inj h
    have hle := honouredTtl_le store resp (statusTtl store resp.status)
    have hge := honouredTtl_nonneg store resp (not_lt.1 hneg)
    generalize honouredTtl store resp (statusTtl store resp.status) = ttl at hle hge
    have hstale : ttl ≤ (if ttl > 0 ∧ store.ignoreCc = false ∧ resp.swr ≥ 0 then
        addTtlClamped ttl resp.swr else staleTtl ttl store.staleMult) := by
      split_ifs
      · exact addTtlClamped_ge hle _
      · exact le_staleTtl hge hle _
    unfold windowsFor
    dsimp only
    generalize (if ttl > 0 ∧ store.ignoreCc = false ∧ resp.swr ≥ 0 then
      addTtlClamped ttl resp.swr else staleTtl ttl store.staleMult) = staleWindow at hstale ⊢
    split_ifs
    all_goals first
      | exact hstale
      | exact le_refl _

/-- A body is stored under a status that `cache_turbo_valid` lists, or 200. -/
theorem bodyFilterWindows_status {store : CaptureConf} {resp : OriginResponse} {w : Windows}
    (hvetted : ∀ v ∈ store.validStatus, v.status ≤ 599)
    (h : bodyFilterWindows store resp = some w) : 100 ≤ resp.status ∧ resp.status ≤ 599 := by
  unfold bodyFilterWindows statusTtl at h
  by_cases hpart : resp.status = 206
  · omega
  by_cases hok : resp.status = 200
  · omega
  simp only [if_neg hpart, if_neg hok] at h
  cases hsearch : statusSearch store.validStatus resp.status 0 store.validStatus.length with
  | none =>
    rw [hsearch] at h
    cases h
  | some ttl =>
    obtain ⟨v, hv, hstatus⟩ := statusSearch_mem hsearch
    have hlow := (store.vetted v hv).1
    have hhigh := hvetted v hv
    omega

/-- **What the store writes is accepted.** -/
theorem validate_storeTailBlob {conf : AdmitConf} {store : CaptureConf} {resp : OriginResponse}
    {pool : BlobPool} {httpTime : Time → Bytes} {created now : Time} {c : Capture} {w : Windows}
    {blob : Bytes} (hvetted : ∀ v ∈ store.validStatus, v.status ≤ 599)
    (hw : bodyFilterWindows store resp = some w) (hstatus : c.status = resp.status)
    (hdate : IsHttpDate (httpTime created)) (hcreated : Clock created)
    (hnow : created ≤ now + foreverTtl)
    (hblob : storeTailBlob conf store.maxSize pool httpTime created c w = some blob)
    {form : RefsForm} (hform : form.Granted) :
    ∃ p, validate now blob form = .ok p := by
  have hround := storeTailBlob_roundTrip (hstatus ▸ bodyFilterWindows_status hvetted hw)
    (bodyFilterWindows_fit hw) (bodyFilterWindows_ordered hw)
    ⟨hcreated.epoch, lt_of_room hcreated.room, hnow⟩ hdate hblob
  obtain ⟨⟨-, -, -, -, hsize⟩, hvalid, -⟩ := hround
  obtain ⟨hbytes, hbody, -⟩ := storeTailBlob_eq hblob
  have hlen : blob.length < 2 ^ 64 := by
    have hwire : blobHdrWire = 76 := rfl
    omega
  rcases validate_spec now hlen form with ⟨hnone, -⟩ | ⟨v, refs, -, -, hcall⟩
  · rw [hnone] at hvalid
    cases hvalid
  · obtain ⟨place, hplace⟩ := refsPlace_granted hform v.hdr.nheaders
    rw [hcall, hplace]
    exact ⟨_, rfl⟩

/-! ## The forms of the call -/

section Forms

variable {now : Time} {blob : Bytes} (hlen : blob.length < 2 ^ 64)

include hlen

/-- Two calls on one buffer are both refused, or differ in the place of the references only. -/
theorem validate_both (form form' : RefsForm) :
    validate now blob form = .error .refused ∧ validate now blob form' = .error .refused ∨
    ∃ v refs,
      validate now blob form =
        (refsPlace form v.hdr.nheaders).map (fun place => parsed v place refs) ∧
      validate now blob form' =
        (refsPlace form' v.hdr.nheaders).map fun place => parsed v place refs := by
  rcases validate_spec now hlen form with ⟨hnone, hrefused⟩ | ⟨v, refs, hvalid, hwalk, hcall⟩
  · rcases validate_spec now hlen form' with ⟨-, hrefused'⟩ | ⟨v', -, hvalid', -⟩
    · exact Or.inl ⟨hrefused, hrefused'⟩
    · rw [hnone] at hvalid'
      cases hvalid'
  · rcases validate_spec now hlen form' with ⟨hnone', -⟩ | ⟨v', refs', hvalid', hwalk', hcall'⟩
    · rw [hnone'] at hvalid
      cases hvalid
    · obtain rfl : v = v' := Option.some.inj (hvalid.symm.trans hvalid')
      obtain rfl : refs = refs' := Except.ok.inj (hwalk.walk.symm.trans hwalk'.walk)
      exact Or.inr ⟨v, refs, hcall, hcall'⟩

/-- **The forms of the call agree** on the verdict, on the header and on the places. -/
theorem validate_forms {form form' : RefsForm} (hform : form.Granted) (hform' : form'.Granted) :
    (validate now blob form).map (fun p => { p with refs := none }) =
      (validate now blob form').map fun p => { p with refs := none } := by
  rcases validate_both hlen form form' with ⟨hrefused, hrefused'⟩ | ⟨v, refs, hcall, hcall'⟩
  · rw [hrefused, hrefused']
  · obtain ⟨place, hplace⟩ := refsPlace_granted hform v.hdr.nheaders
    obtain ⟨place', hplace'⟩ := refsPlace_granted hform' v.hdr.nheaders
    rw [hcall, hcall', hplace, hplace']
    rfl

/-- **The forms that ask for references agree**, whatever array they bring. -/
theorem validate_refs {form form' : RefsForm} (hform : form.Refs) (hform' : form'.Refs) :
    validate now blob form = validate now blob form' := by
  rcases validate_both hlen form form' with ⟨hrefused, hrefused'⟩ | ⟨v, refs, hcall, hcall'⟩
  · rw [hrefused, hrefused']
  · obtain ⟨place, hplace, hiff⟩ := refsPlace_refs hform v.hdr.nheaders
    obtain ⟨place', hplace', hiff'⟩ := refsPlace_refs hform' v.hdr.nheaders
    have hsame : parsed v place refs = parsed v place' refs := by
      simp only [parsed, hiff, hiff']
    rw [hcall, hcall', hplace, hplace']
    exact congrArg Except.ok hsame

end Forms

/-- **Validation is a contract for its callers**, on every buffer.  No call reads outside it, and
an accepted one keeps what the callers rely on; what the store writes is accepted; the forms of the
call agree on the verdict, those that ask for references on everything; and clearing the vetted bit
changes the flags and nothing else. -/
theorem blobValidate_contract {now : Time} {blob : Bytes} (hlen : blob.length < 2 ^ 64) :
    (∀ form, validate now blob form ≠ .error .outside ∧
      ∀ p, validate now blob form = .ok p → Accepted now blob p) ∧
    (∀ (conf : AdmitConf) (store : CaptureConf) (resp : OriginResponse) (pool : BlobPool)
      (httpTime : Time → Bytes) (created : Time) (c : Capture) (w : Windows),
      (∀ v ∈ store.validStatus, v.status ≤ 599) → bodyFilterWindows store resp = some w →
      c.status = resp.status → IsHttpDate (httpTime created) → Clock created →
      created ≤ now + foreverTtl →
      storeTailBlob conf store.maxSize pool httpTime created c w = some blob →
      ∀ form : RefsForm, form.Granted → ∃ p, validate now blob form = .ok p) ∧
    (∀ form form' : RefsForm, form.Granted → form'.Granted →
      (validate now blob form).map (fun p => { p with refs := none }) =
        (validate now blob form').map fun p => { p with refs := none }) ∧
    (∀ form form' : RefsForm, form.Refs → form'.Refs →
      validate now blob form = validate now blob form') ∧
    ∀ form, validate now (blobClearVetted blob) form =
      (validate now blob form).map Parsed.clearVetted :=
  ⟨fun form => ⟨validate_ne_outside now hlen form, fun _ h => validate_accepted hlen h⟩,
    fun _ _ _ _ _ _ _ _ hvetted hw hstatus hdate hcreated hnow hblob _ hform =>
      validate_storeTailBlob hvetted hw hstatus hdate hcreated hnow hblob hform,
    fun _ _ hform hform' => validate_forms hlen hform hform',
    fun _ _ hform hform' => validate_refs hlen hform hform',
    fun form => validate_clearVetted now hlen form⟩

/-- The blob of a page, written at second 1000. -/
def pageBlob : Bytes :=
  captureBlobWrite ⟨false, []⟩ (fun _ => pageDate) 1000 pageCapture
    (measureHeaders ⟨false, []⟩ true pageCapture.headers pageCapture.contentType) ⟨60, 240, 0⟩

/-- The page is accepted with its references, in an array of its reader or of the pool. -/
theorem blobValidate_contract_page :
    ∃ p, Accepted 1000 pageBlob p ∧ validate 1000 pageBlob ⟨true, some 24, some true⟩ = .ok p ∧
      validate 1000 pageBlob ⟨true, none, some true⟩ = .ok p ∧
      validate 1000 (blobClearVetted pageBlob) ⟨true, none, some true⟩ = .ok p.clearVetted := by
  obtain ⟨hsafe, hstored, -, hrefs, hclear⟩ :=
    @blobValidate_contract 1000 pageBlob (by
      have hsize : pageBlob.length = 128 := rfl
      omega)
  obtain ⟨p, hp⟩ := hstored ⟨false, []⟩ plainConf { notModified with status := 200 } ⟨true, true⟩
    (fun _ => pageDate) 1000 pageCapture ⟨60, 240, 0⟩ (fun v hv => absurd hv List.not_mem_nil) rfl
    rfl pageDate_isHttpDate ⟨by decide, by decide⟩ (by decide) rfl ⟨true, some 24, some true⟩
    (by intro h; cases h)
  have hsame := hrefs ⟨true, none, some true⟩ ⟨true, some 24, some true⟩ ⟨rfl, rfl⟩ ⟨rfl, rfl⟩
  refine ⟨p, (hsafe _).2 p hp, hp, hsame.trans hp, ?_⟩
  rw [hclear, hsame, hp]
  rfl

end BlobContract
end Http
end CacheTurbo
