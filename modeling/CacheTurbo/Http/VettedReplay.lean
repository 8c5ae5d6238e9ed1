/-
# A verdict that is kept

The store asks `ngx_http_cache_turbo_header_admissible` about every pair and marks the blob as
vetted; `ngx_http_cache_turbo_restore_response_headers` does not ask about the pairs of such a blob
again.  Two of the answers are the location's own: the key header that it generates and the header
that it requires are not replayed.  The blob holds the answers of the location that stored it, and
it is replayed by every location of the zone.

The loop over the pairs leaves the pairs that it lets through (`restoreHeaders_vetted`,
`restoreHeaders_gate`).  So the two replays agree where the serving location strips nothing that
was stored (`vetted_replay_iff`).
-/

import CacheTurbo.Http.CaptureBlob
import CacheTurbo.Http.Restore

namespace CacheTurbo
namespace Http
namespace VettedReplay

open Bytes Blob

/-- What a delivery takes from the pairs of a blob, when it begins with nothing. -/
def replay (conf : AdmitConf) (now : Time) (blob : Bytes) : Option HeadersOut :=
  (blobValidate now blob).map fun v =>
    (restoreResponseHeaders conf v.hdr.flags v.refs (restoreResponsePrologue v.hdr)).out

/-! ## What the loop leaves -/

/-- A pair that goes to the content type. -/
def isType (p : Bytes × Bytes) : Bool := eqFold p.1 contentTypeName

/-- The last content type of the pairs. -/
def lastType : List (Bytes × Bytes) → Option Bytes
  | [] => none
  | p :: ps => (lastType ps).or (if isType p then some p.2 else none)

/-- `headers_out` with a content type. -/
def withType (out : HeadersOut) : Option Bytes → HeadersOut
  | none => out
  | some v => restoreContentType out v

/-- `headers_out` with the pairs. -/
def withPairs (out : HeadersOut) (ps : List (Bytes × Bytes)) : HeadersOut :=
  { withType out (lastType ps) with headers := out.headers ++ ps.filter fun p => !isType p }

theorem role_type_iff (p : Bytes × Bytes) :
    (pairHref p).role = hroleContentType ↔ isType p = true := by
  show headerRole p.1 = hroleContentType ↔ eqFold p.1 contentTypeName = true
  unfold headerRole
  split_ifs with htype hetag hmod
  · exact iff_of_true rfl htype
  · exact iff_of_false (by decide) htype
  · exact iff_of_false (by decide) htype
  · exact iff_of_false (by decide) htype

theorem restoreContentType_twice (out : HeadersOut) (v v' : Bytes) :
    restoreContentType (restoreContentType out v) v' = restoreContentType out v' := by
  unfold restoreContentType
  cases charsetScan 0 v <;> cases charsetScan 0 v' <;> rfl

theorem restoreContentType_addPair (out : HeadersOut) (v : Bytes) (p : Bytes × Bytes) :
    restoreContentType (addHeader out p.1 p.2) v = addHeader (restoreContentType out v) p.1 p.2 := by
  unfold restoreContentType
  cases charsetScan 0 v <;> rfl

/-- One turn over a vetted pair. -/
theorem restoreHeader_vetted (conf : AdmitConf) (s : Restored) (p : Bytes × Bytes) :
    (restoreHeader conf true s (pairHref p)).out =
      if isType p then restoreContentType s.out p.2 else addHeader s.out p.1 p.2 := by
  unfold restoreHeader
  rw [Bool.not_true, Bool.false_and, if_neg Bool.false_ne_true]
  by_cases htype : isType p = true
  · rw [if_pos ((role_type_iff p).2 htype), if_pos htype]
    rfl
  · rw [if_neg (mt (role_type_iff p).1 htype), if_neg htype]
    split_ifs <;> rfl

theorem withPairs_cons (out : HeadersOut) (p : Bytes × Bytes) (ps : List (Bytes × Bytes)) :
    withPairs out (p :: ps) = withPairs
      (if isType p then restoreContentType out p.2 else addHeader out p.1 p.2) ps := by
  have hheaders : ∀ v, (restoreContentType out v).headers = out.headers := by
    intro v
    unfold restoreContentType
    cases charsetScan 0 v <;> rfl
  unfold withPairs
  rw [lastType, List.filter_cons]
  by_cases htype : isType p = true
  · rw [if_pos htype, if_pos htype, htype, Bool.not_true, if_neg Bool.false_ne_true, hheaders]
    cases lastType ps with
    | none => rfl
    | some v =>
      simp only [Option.some_or, withType, restoreContentType_twice]
  · rw [if_neg htype, if_neg htype, Bool.eq_false_iff.2 htype, Bool.not_false, if_pos rfl,
      Option.or_none]
    cases lastType ps with
    | none =>
      simp only [withType, addHeader, List.append_assoc, List.cons_append, List.nil_append]
    | some v =>
      simp only [withType, restoreContentType_addPair]
      simp only [addHeader, List.append_assoc, List.cons_append, List.nil_append]

/-- **A vetted blob gives all its pairs.** -/
theorem restoreHeaders_vetted (conf : AdmitConf) (ps : List (Bytes × Bytes)) (s : Restored) :
    ((ps.map pairHref).foldl (restoreHeader conf true) s).out = withPairs s.out ps := by
  induction ps generalizing s with
  | nil => simp [withPairs, lastType, withType]
  | cons p ps ih => rw [List.map_cons, List.foldl_cons, ih, restoreHeader_vetted, withPairs_cons]

/-- **Without the mark, the pairs that the location admits.** -/
theorem restoreHeaders_gate (conf : AdmitConf) (ps : List (Bytes × Bytes)) (s : Restored) :
    ((ps.map pairHref).foldl (restoreHeader conf false) s).out =
      withPairs s.out (ps.filter fun p => headerAdmissible conf p.1 p.2) := by
  induction ps generalizing s with
  | nil => simp [withPairs, lastType, withType]
  | cons p ps ih =>
    rw [List.map_cons, List.foldl_cons, ih, List.filter_cons]
    by_cases hadm : headerAdmissible conf p.1 p.2 = true
    · have hsame : restoreHeader conf false s (pairHref p) =
          restoreHeader conf true s (pairHref p) := by
        unfold restoreHeader
        rw [show headerAdmissible conf (pairHref p).name (pairHref p).val = true from hadm]
        rfl
      rw [if_pos hadm, hsame, restoreHeader_vetted, withPairs_cons]
    · have hdrop : (restoreHeader conf false s (pairHref p)).out = s.out := by
        unfold restoreHeader
        rw [show headerAdmissible conf (pairHref p).name (pairHref p).val = false from
          Bool.eq_false_iff.2 hadm]
        rfl
      rw [if_neg hadm, hdrop]

/-! ## What a location strips -/

/-- The part of the gate that is the location's own: the key header that it generates, and the
header that it requires. -/
def strips (conf : AdmitConf) (name : Bytes) : Bool :=
  (conf.surrogateKey && eqFold name surrogateKeyName) || eqFold name conf.requireHeader

/-- Where one location has admitted a pair, another asks only this. -/
theorem headerAdmissible_of_stored {stored serve : AdmitConf} {name val : Bytes}
    (h : headerAdmissible stored name val = true) :
    headerAdmissible serve name val = !strips serve name := by
  rw [headerAdmissible, Bool.and_eq_true, Bool.and_eq_true] at h
  obtain ⟨⟨hname, hval⟩, hskip⟩ := h
  have hlen : decide (name.length ≠ 0) = true :=
    ((Bool.and_eq_true _ _).mp (headerAdmissibleName.eq_1 name ▸ hname)).1
  have htable : headerSkipNames.any (eqFold name) = false := by
    rw [headerSkip, Bool.not_eq_true', Bool.or_eq_false_iff, Bool.or_eq_false_iff] at hskip
    exact hskip.1.2
  rw [headerAdmissible, hname, hval, Bool.true_and, Bool.true_and, headerSkip, htable, hlen,
    Bool.or_false, Bool.true_and, strips]

theorem mem_admittedPairs {conf : AdmitConf} {headers : List TableElt} {ct : Bytes}
    {p : Bytes × Bytes} (h : p ∈ admittedPairs conf headers ct) :
    headerAdmissible conf p.1 p.2 = true := by
  rcases List.mem_append.1 h with htype | hlist
  · by_cases hct : ctAdmissible conf ct = true
    · rw [if_pos hct, List.mem_singleton] at htype
      rw [htype]
      exact ((Bool.and_eq_true _ _).mp hct).2
    · rw [if_neg hct] at htype
      exact absurd htype List.not_mem_nil
  · obtain ⟨e, he, rfl⟩ := List.mem_map.1 hlist
    exact ((Bool.and_eq_true _ _).mp (List.mem_filter.1 he).2).2

/-- Content types are stripped together. -/
theorem strips_type (conf : AdmitConf) {p : Bytes × Bytes} (h : isType p = true) :
    strips conf p.1 = strips conf contentTypeName := by
  have hfold : p.1.map lower = contentTypeName.map lower := eq_of_beq h
  rw [strips, strips, eqFold, eqFold, eqFold, eqFold, hfold]

/-- **The location strips nothing that was stored**, but for content types the last of which is
empty. -/
def StripsNone (conf : AdmitConf) (stored : List (Bytes × Bytes)) : Prop :=
  ∀ p ∈ stored, strips conf p.1 = true → isType p = true ∧ lastType stored = some []

theorem lastType_none {ps : List (Bytes × Bytes)} (h : ∀ p ∈ ps, isType p = false) :
    lastType ps = none := by
  induction ps with
  | nil => rfl
  | cons p ps ih =>
    obtain ⟨hp, hps⟩ := List.forall_mem_cons.1 h
    rw [lastType, ih hps, hp]
    rfl

theorem lastType_some {ps : List (Bytes × Bytes)} {p : Bytes × Bytes} (hp : p ∈ ps)
    (htype : isType p = true) : ∃ v, lastType ps = some v := by
  induction ps with
  | nil => exact absurd hp List.not_mem_nil
  | cons q ps ih =>
    rw [lastType]
    rcases List.mem_cons.1 hp with rfl | hmem
    · rw [if_pos htype]
      cases lastType ps with
      | none => exact ⟨_, rfl⟩
      | some v => exact ⟨v, rfl⟩
    · obtain ⟨v, hv⟩ := ih hmem
      exact ⟨v, by rw [hv, Option.some_or]⟩

/-- One content type that is stripped, and none is left. -/
theorem lastType_stripped {conf : AdmitConf} (stored : List (Bytes × Bytes)) {p : Bytes × Bytes}
    (htype : isType p = true) (hstrips : strips conf p.1 = true) :
    lastType (stored.filter fun p => !strips conf p.1) = none := by
  refine lastType_none fun q hq => Bool.eq_false_iff.2 fun hqt => ?_
  have hkept := (List.mem_filter.1 hq).2
  rw [strips_type conf hqt, ← strips_type conf htype, hstrips] at hkept
  exact Bool.false_ne_true hkept

theorem withType_contentType (out : HeadersOut) (v : Bytes) :
    (withType out (some v)).contentType = v := by
  show (restoreContentType out v).contentType = v
  unfold restoreContentType
  cases charsetScan 0 v <;> rfl

/-- The pairs that are left give the same `headers_out` exactly then. -/
theorem withPairs_filter_iff (conf : AdmitConf) (hdr : BlobHdr) (stored : List (Bytes × Bytes)) :
    withPairs (restoreResponsePrologue hdr) stored =
      withPairs (restoreResponsePrologue hdr) (stored.filter fun p => !strips conf p.1) ↔
    StripsNone conf stored := by
  set out := restoreResponsePrologue hdr
  constructor
  · intro h p hp hstrips
    have hheaders : stored.filter (fun p => !isType p) =
        (stored.filter fun p => !strips conf p.1).filter fun p => !isType p :=
      congrArg HeadersOut.headers h
    have htype : isType p = true := by
      by_contra hno
      have hmem : p ∈ stored.filter fun p => !isType p :=
        List.mem_filter.2 ⟨hp, by rw [Bool.eq_false_iff.2 hno]; rfl⟩
      rw [hheaders] at hmem
      have hkept := (List.mem_filter.1 (List.mem_filter.1 hmem).1).2
      rw [hstrips] at hkept
      exact Bool.false_ne_true hkept
    have hgone := lastType_stripped stored htype hstrips
    obtain ⟨v, hv⟩ := lastType_some hp htype
    have hct := congrArg HeadersOut.contentType h
    change (withType out (lastType stored)).contentType =
      (withType out (lastType (stored.filter fun p => !strips conf p.1))).contentType at hct
    rw [hv, hgone, withType_contentType] at hct
    refine ⟨htype, ?_⟩
    rw [hv, hct]
    rfl
  · intro h
    by_cases hkeeps : ∀ p ∈ stored, strips conf p.1 = false
    · rw [List.filter_eq_self.2 fun p hp => by rw [hkeeps p hp]; rfl]
    · push Not at hkeeps
      obtain ⟨p, hp, hstrips⟩ := hkeeps
      rw [Bool.ne_false_iff] at hstrips
      obtain ⟨htype, hlast⟩ := h p hp hstrips
      have hgone := lastType_stripped stored htype hstrips
      have hheaders : stored.filter (fun p => !isType p) =
          (stored.filter fun p => !strips conf p.1).filter fun p => !isType p := by
        rw [List.filter_filter]
        refine List.filter_congr fun q hq => ?_
        by_cases hqs : strips conf q.1 = true
        · rw [(h q hq hqs).1]
          rfl
        · rw [Bool.eq_false_iff.2 hqs, Bool.not_false, Bool.and_true]
      rw [withPairs, withPairs, hgone, hlast, hheaders]
      rfl

/-! ## The replay of a stored blob -/

theorem captureFlags_vetted (c : Capture) : hasFlag (captureFlags c) blobfHdrsVetted = true := by
  have hbit : ∀ flags, (flags ||| blobfHdrsVetted) &&& blobfHdrsVetted = blobfHdrsVetted := by
    intro flags
    refine Nat.eq_of_testBit_eq fun i => ?_
    rw [Nat.testBit_and, Nat.testBit_or]
    cases flags.testBit i <;> cases Nat.testBit blobfHdrsVetted i <;> rfl
  rw [hasFlag, captureFlags, hbit]
  rfl

theorem clearVetted_unvetted (flags : ℕ) : hasFlag (clearVetted flags) blobfHdrsVetted = false := by
  have hmask : (0xFFFF ^^^ blobfHdrsVetted) &&& blobfHdrsVetted = 0 := by decide
  rw [hasFlag, clearVetted, Nat.and_assoc, hmask, Nat.and_zero]
  rfl

/-- **When the mark makes no difference.**  A response captured under the location `stored` and
replayed by the location `serve`: the pairs that are sent are those of the full gate exactly when
`serve` strips nothing that was stored. -/
theorem vetted_replay_iff {stored serve : AdmitConf} {maxSize : ℕ} {pool : BlobPool}
    {httpTime : Time → Bytes} {created now : Time} {c : Capture} {w : Windows} {blob : Bytes}
    (hstatus : 100 ≤ c.status ∧ c.status ≤ 599) (hfit : w.Fit) (hwindows : w.ttl ≤ w.staleWindow)
    (hcreated : PlausibleEpoch created now) (hdate : IsHttpDate (httpTime created))
    (hblob : storeTailBlob stored maxSize pool httpTime created c w = some blob) :
    (replay serve now blob).isSome ∧
      (replay serve now blob = replay serve now (blobClearVetted blob) ↔
        StripsNone serve (admittedPairs stored c.headers c.contentType)) := by
  obtain ⟨-, hvalid, hcleared⟩ :=
    @storeTailBlob_roundTrip _ _ _ _ _ now _ _ _ hstatus hfit hwindows hcreated hdate hblob
  have hadm : ∀ p ∈ admittedPairs stored c.headers c.contentType,
      headerAdmissible serve p.1 p.2 = !strips serve p.1 := fun p hp =>
    headerAdmissible_of_stored (mem_admittedPairs hp)
  rw [replay, replay, hvalid, hcleared]
  refine ⟨rfl, ?_⟩
  simp only [Option.map_some, Option.some.injEq, restoreResponseHeaders, captureFlags_vetted,
    clearVetted_unvetted, restoreHeaders_vetted, restoreHeaders_gate]
  rw [List.filter_congr hadm]
  exact withPairs_filter_iff serve _ _

/-! ## A key header of another location -/

/-- A page with the origin's own key header. -/
def keyedPage : Capture :=
  { status := 200
    headers := [⟨1, surrogateKeyName, lit ['k', '1']⟩]
    contentType := lit ['t', 'e', 'x', 't', '/', 'h', 't', 'm', 'l']
    body := ⟨[lit ['h', 'i']], 2, rfl⟩
    brkOnly := false
    originEncoded := none
    authShareable := false
    headDerived := false }

/-- The blob that a location without a key header of its own makes of it. -/
def keyedBlob : Bytes :=
  captureBlobWrite ⟨false, []⟩ (fun _ => pageDate) 1000 keyedPage
    (measureHeaders ⟨false, []⟩ true keyedPage.headers keyedPage.contentType) ⟨60, 240, 0⟩

theorem vetted_replay_iff_keyed :
    (replay ⟨true, []⟩ 1000 keyedBlob).isSome ∧
      (replay ⟨true, []⟩ 1000 keyedBlob = replay ⟨true, []⟩ 1000 (blobClearVetted keyedBlob) ↔
        StripsNone ⟨true, []⟩
          (admittedPairs ⟨false, []⟩ keyedPage.headers keyedPage.contentType)) :=
  @vetted_replay_iff ⟨false, []⟩ ⟨true, []⟩ 0 ⟨true, true⟩ (fun _ => pageDate) 1000 1000 keyedPage
    ⟨60, 240, 0⟩ keyedBlob (by decide) ⟨by decide, by decide, by decide⟩ (by decide)
    ⟨by decide, by decide, by decide⟩ pageDate_isHttpDate rfl

/-- **A location that generates the key header replays a stored one beside it.** -/
theorem vetted_replay_fails :
    ¬ ∀ (stored serve : AdmitConf) (maxSize : ℕ) (pool : BlobPool) (httpTime : Time → Bytes)
      (created now : Time) (c : Capture) (w : Windows) (blob : Bytes),
      100 ≤ c.status ∧ c.status ≤ 599 → w.Fit → w.ttl ≤ w.staleWindow →
      PlausibleEpoch created now → IsHttpDate (httpTime created) →
      storeTailBlob stored maxSize pool httpTime created c w = some blob →
      replay serve now blob = replay serve now (blobClearVetted blob) := by
  intro h
  have hsame := h ⟨false, []⟩ ⟨true, []⟩ 0 ⟨true, true⟩ (fun _ => pageDate) 1000 1000 keyedPage
    ⟨60, 240, 0⟩ keyedBlob (by decide) ⟨by decide, by decide, by decide⟩ (by decide)
    ⟨by decide, by decide, by decide⟩ pageDate_isHttpDate rfl
  exact absurd hsame (by decide +kernel)

end VettedReplay
end Http
end CacheTurbo
