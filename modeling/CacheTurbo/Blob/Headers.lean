/-
# The headers of a blob

Which headers of a response are stored (`ngx_http_cache_turbo_header_admissible`),
the pass that measures them (`ngx_http_cache_turbo_body_filter_measure_headers`)
and the pass that writes them (`ngx_http_cache_turbo_body_filter_blob_write`).
The list of parts of nginx is the list of its elements, in order.  The first pass
leaves its verdicts in a bit map, unless that could not be allocated.
-/

import CacheTurbo.Blob.Codec
import CacheTurbo.Lib.Bitmap
import Mathlib.Algebra.Order.BigOperators.Group.List
import Mathlib.Algebra.Order.Group.Nat

namespace CacheTurbo
namespace Blob

open Bytes
open Shm (getU32 getU64)

/-! ## What may be stored -/

/-- What the store filters read of the location configuration. -/
structure AdmitConf where
  surrogateKey : Bool
  requireHeader : Bytes
  deriving DecidableEq, Repr

/-- `ngx_table_elt_t`; a hash of zero takes the header out of the response. -/
structure TableElt where
  hash : ℕ
  key : Bytes
  value : Bytes
  deriving DecidableEq, Repr

/-- `"Content-Type"`. -/
def contentTypeName : Bytes := lit ['C', 'o', 'n', 't', 'e', 'n', 't', '-', 'T', 'y', 'p', 'e']

/-- `"ETag"`. -/
def etagName : Bytes := lit ['E', 'T', 'a', 'g']

/-- `"Last-Modified"`. -/
def lastModifiedName : Bytes :=
  lit ['L', 'a', 's', 't', '-', 'M', 'o', 'd', 'i', 'f', 'i', 'e', 'd']

/-- `"Surrogate-Key"`. -/
def surrogateKeyName : Bytes :=
  lit ['S', 'u', 'r', 'r', 'o', 'g', 'a', 't', 'e', '-', 'K', 'e', 'y']

/-- The table of `ngx_http_cache_turbo_header_skip`. -/
def headerSkipNames : List Bytes :=
  [lit ['C', 'o', 'n', 'n', 'e', 'c', 't', 'i', 'o', 'n'],
    lit ['K', 'e', 'e', 'p', '-', 'A', 'l', 'i', 'v', 'e'],
    lit ['P', 'r', 'o', 'x', 'y', '-', 'A', 'u', 't', 'h', 'e', 'n', 't', 'i', 'c', 'a', 't', 'e'],
    lit ['P', 'r', 'o', 'x', 'y', '-', 'A', 'u', 't', 'h', 'o', 'r', 'i', 'z', 'a', 't', 'i', 'o',
      'n'],
    lit ['T', 'E'],
    lit ['T', 'r', 'a', 'i', 'l', 'e', 'r'],
    lit ['T', 'r', 'a', 'n', 's', 'f', 'e', 'r', '-', 'E', 'n', 'c', 'o', 'd', 'i', 'n', 'g'],
    lit ['U', 'p', 'g', 'r', 'a', 'd', 'e'],
    lit ['C', 'o', 'n', 't', 'e', 'n', 't', '-', 'L', 'e', 'n', 'g', 't', 'h'],
    lit ['C', 'o', 'n', 't', 'e', 'n', 't', '-', 'E', 'n', 'c', 'o', 'd', 'i', 'n', 'g'],
    lit ['S', 'e', 't', '-', 'C', 'o', 'o', 'k', 'i', 'e'],
    lit ['D', 'a', 't', 'e'],
    lit ['S', 'e', 'r', 'v', 'e', 'r'],
    lit ['A', 'g', 'e'],
    lit ['X', '-', 'C', 'a', 'c', 'h', 'e'],
    lit ['X', '-', 'C', 'a', 'c', 'h', 'e', '-', 'S', 't', 'a', 't', 'u', 's'],
    lit ['C', 'D', 'N', '-', 'C', 'a', 'c', 'h', 'e', '-', 'C', 'o', 'n', 't', 'r', 'o', 'l'],
    lit ['S', 'u', 'r', 'r', 'o', 'g', 'a', 't', 'e', '-', 'C', 'o', 'n', 't', 'r', 'o', 'l']]

/-- `ngx_http_cache_turbo_header_skip`. -/
def headerSkip (conf : AdmitConf) (name : Bytes) : Bool :=
  (conf.surrogateKey && eqFold name surrogateKeyName)
    || headerSkipNames.any (eqFold name)
    || (decide (name.length ≠ 0) && eqFold name conf.requireHeader)

/-- The marks that a header name may hold beside letters and digits. -/
def headerNameMarks : Bytes :=
  lit ['!', '#', '$', '%', '&', '\'', '*', '+', '-', '.', '^', '_', '\x60', '|', '~']

/-- `ngx_http_cache_turbo_header_admissible_name`. -/
def headerAdmissibleName (name : Bytes) : Bool :=
  decide (name.length ≠ 0) && name.all fun c =>
    decide (97 ≤ c ∧ c ≤ 122) || decide (65 ≤ c ∧ c ≤ 90) || decide (48 ≤ c ∧ c ≤ 57)
      || headerNameMarks.contains c

/-- `ngx_http_cache_turbo_header_admissible_value`. -/
def headerAdmissibleValue (val : Bytes) : Bool := val.all fun c => c != 13 && c != 10 && c != 0

/-- `ngx_http_cache_turbo_header_admissible`. -/
def headerAdmissible (conf : AdmitConf) (name val : Bytes) : Bool :=
  headerAdmissibleName name && headerAdmissibleValue val && !headerSkip conf name

/-- `ngx_http_cache_turbo_header_role`. -/
def headerRole (nm : Bytes) : ℕ :=
  if eqFold nm contentTypeName then hroleContentType
  else if eqFold nm etagName then hroleEtag
  else if eqFold nm lastModifiedName then hroleLastModified
  else hroleOther

/-! ## The two passes -/

/-- `ngx_http_cache_turbo_hdr_verdicts_t`; no map where its allocation failed. -/
structure HdrVerdicts where
  bits : Option (List UInt8)
  nvisited : ℕ
  ctAdmissible : Bool

/-- `ngx_http_cache_turbo_verdict_set`. -/
def verdictSet (v : HdrVerdicts) (idx : ℕ) : HdrVerdicts :=
  { v with bits := v.bits.map fun bits => Bitmap.set bits idx }

/-- The verdict on one header of the response. -/
def admitted (conf : AdmitConf) (h : TableElt) : Bool :=
  h.hash != 0 && headerAdmissible conf h.key h.value

/-- `ngx_http_cache_turbo_verdict_get`. -/
def verdictGet (conf : AdmitConf) (v : HdrVerdicts) (idx : ℕ) (h : TableElt) : Bool :=
  match v.bits with
  | none => admitted conf h
  | some bits => if idx ≥ v.nvisited then admitted conf h else Bitmap.get bits idx

/-- What the measuring pass reports. -/
structure Measured where
  hdrBytes : ℕ
  nheaders : ℕ
  verdicts : HdrVerdicts

/-- The bytes that one header is counted with. -/
def pairBytes (name val : Bytes) : ℕ := 1 + 4 + name.length + 4 + val.length

/-- The loop of `ngx_http_cache_turbo_body_filter_measure_headers` from header `idx`. -/
def measureWalk (conf : AdmitConf) (total : ℕ) : List TableElt → ℕ → Measured → Measured
  | [], idx, m => { m with verdicts.nvisited := idx }
  | h :: hs, idx, m =>
      if idx ≥ total then { m with verdicts.nvisited := idx }
      else if admitted conf h then
        measureWalk conf total hs (idx + 1)
          { hdrBytes := m.hdrBytes + pairBytes h.key h.value
            nheaders := m.nheaders + 1
            verdicts := verdictSet m.verdicts idx }
      else measureWalk conf total hs (idx + 1) m

/-- Whether the content type is stored. -/
def ctAdmissible (conf : AdmitConf) (ct : Bytes) : Bool :=
  decide (ct.length ≠ 0) && headerAdmissible conf contentTypeName ct

/-- The measuring pass before its loop: the map, and the content type. -/
def measureStart (conf : AdmitConf) (room : Bool) (headers : List TableElt) (ct : Bytes) :
    Measured :=
  let total := headers.length
  { hdrBytes := if ctAdmissible conf ct then pairBytes contentTypeName ct else 0
    nheaders := if ctAdmissible conf ct then 1 else 0
    verdicts :=
      { bits := if total > 0 ∧ room then some (Bitmap.empty total) else none
        nvisited := 0
        ctAdmissible := ctAdmissible conf ct } }

/-- `ngx_http_cache_turbo_body_filter_measure_headers`; `room` is whether the pool has room
for the map. -/
def measureHeaders (conf : AdmitConf) (room : Bool) (headers : List TableElt) (ct : Bytes) :
    Measured :=
  measureWalk conf headers.length headers 0 (measureStart conf room headers ct)

/-- `CT_PUT`: one header with its role. -/
def ctPut (name val : Bytes) : Bytes := blobHeaderWrite ⟨headerRole name, name, val⟩

/-- The header loop of `ngx_http_cache_turbo_body_filter_blob_write` from header `idx`. -/
def writeWalk (conf : AdmitConf) (v : HdrVerdicts) : List TableElt → ℕ → Bytes
  | [], _ => []
  | h :: hs, idx =>
      (if verdictGet conf v idx h then ctPut h.key h.value else [])
        ++ writeWalk conf v hs (idx + 1)

/-- The headers that `ngx_http_cache_turbo_body_filter_blob_write` writes. -/
def writeHeaders (conf : AdmitConf) (headers : List TableElt) (ct : Bytes) (v : HdrVerdicts) :
    Bytes :=
  (if ct.length ≠ 0 ∧ v.ctAdmissible then ctPut contentTypeName ct else [])
    ++ writeWalk conf v headers 0

/-! ## One header -/

theorem headerRole_le (nm : Bytes) : headerRole nm ≤ hroleMax := by
  unfold headerRole
  split_ifs
  all_goals decide

theorem putU32_length (v : ℕ) : (putU32 v).length = 4 := rfl

theorem blobHeaderWrite_length (h : Href) :
    (blobHeaderWrite h).length = pairBytes h.name h.val := by
  simp only [blobHeaderWrite, pairBytes, List.length_cons, List.length_append, putU32_length]
  omega

/-- A header that the format can hold. -/
structure Href.Fits (h : Href) : Prop where
  role : h.role ≤ hroleMax
  name : h.name.length < 2 ^ 32
  val : h.val.length < 2 ^ 32

/-- **One header reads back**, and what follows it is left. -/
theorem blobNextHeader_write {h : Href} (hfits : h.Fits) (rest : Bytes) :
    blobNextHeader (blobHeaderWrite h ++ rest) = some (h, rest) := by
  obtain ⟨role, name, val⟩ := h
  have hrole : ¬ role > hroleMax := not_lt.2 hfits.role
  have hbyte : (role.toUInt8).toNat = role := by
    have hmax : role ≤ 3 := hfits.role
    rw [Nat.toUInt8_eq, UInt8.toNat_ofNat']
    omega
  have hnlen : name.length < 2 ^ 32 := hfits.name
  have hvlen : val.length < 2 ^ 32 := hfits.val
  have hname := getU32_putU32 hnlen (name ++ (putU32 val.length ++ (val ++ rest)))
  have hval := getU32_putU32 hvlen (val ++ rest)
  have hdrop : ∀ (n : ℕ) (p : Bytes), (putU32 n ++ p).drop 4 = p := fun n p =>
    List.drop_left' (putU32_length n)
  have hlen : ¬ (blobHeaderWrite ⟨role, name, val⟩ ++ rest).length < 9 := by
    rw [List.length_append, blobHeaderWrite_length, pairBytes]
    omega
  have hshape : blobHeaderWrite ⟨role, name, val⟩ ++ rest =
      role.toUInt8 :: (putU32 name.length ++ (name ++ (putU32 val.length ++ (val ++ rest)))) := by
    simp only [blobHeaderWrite, List.cons_append, List.append_assoc]
  unfold blobNextHeader
  rw [if_neg hlen, hshape]
  simp only [List.getD_cons_zero, hbyte, List.drop_succ_cons, List.drop_zero, hname, hdrop]
  rw [if_neg hrole, if_neg (by rw [List.length_append]; omega),
    List.drop_left, List.take_left, hval, hdrop,
    if_neg (by rw [List.length_append, putU32_length]; omega),
    if_neg (by rw [List.length_append]; omega), List.take_left, List.drop_left]

/-- **A block of headers reads back** as the list it was written from. -/
theorem blobHrefs_write {hs : List Href} (hfits : ∀ h ∈ hs, h.Fits) :
    blobHrefs hs.length (hs.flatMap blobHeaderWrite) = some hs := by
  induction hs with
  | nil => rfl
  | cons h hs ih =>
    rw [List.flatMap_cons, List.length_cons, blobHrefs,
      blobNextHeader_write (hfits h List.mem_cons_self)]
    simp only
    rw [ih fun x hx => hfits x (List.mem_cons_of_mem h hx)]
    rfl

/-! ## The measuring pass -/

/-- The name and the value of a header. -/
def TableElt.pair (h : TableElt) : Bytes × Bytes := (h.key, h.value)

/-- **The headers that are stored**: the content type, unless it is empty or refused, and the
headers of the response that are not refused, in their order. -/
def admittedPairs (conf : AdmitConf) (headers : List TableElt) (ct : Bytes) :
    List (Bytes × Bytes) :=
  (if ctAdmissible conf ct then [(contentTypeName, ct)] else [])
    ++ (headers.filter (admitted conf)).map TableElt.pair

/-- A pair as the reader of a blob gives it. -/
def pairHref (p : Bytes × Bytes) : Href := ⟨headerRole p.1, p.1, p.2⟩

/-- The bytes that pairs take. -/
def pairsBytes (ps : List (Bytes × Bytes)) : ℕ := (ps.map fun p => pairBytes p.1 p.2).sum

/-- Where the walk of the measuring pass ends. -/
structure WalkSpec (conf : AdmitConf) (hs : List TableElt) (idx : ℕ) (m m' : Measured) :
    Prop where
  hdrBytes : m'.hdrBytes =
    m.hdrBytes + pairsBytes ((hs.filter (admitted conf)).map TableElt.pair)
  nheaders : m'.nheaders = m.nheaders + (hs.filter (admitted conf)).length
  nvisited : m'.verdicts.nvisited = idx + hs.length
  ctAdmissible : m'.verdicts.ctAdmissible = m.verdicts.ctAdmissible
  noMap : m.verdicts.bits = none → m'.verdicts.bits = none
  /-- a bit is set before the walk or by it -/
  map : ∀ bits, m.verdicts.bits = some bits → ∃ bits', m'.verdicts.bits = some bits' ∧
    ∀ j, Bitmap.get bits' j = (Bitmap.get bits j ||
      (decide (idx ≤ j) && (hs[j - idx]?).any (admitted conf)))

/-- The indices from `idx` on whose element of a list has a property, one element later. -/
theorem rangeAny_cons (f : TableElt → Bool) (h : TableElt) (hs : List TableElt) (idx j : ℕ) :
    (decide (idx ≤ j) && ((h :: hs)[j - idx]?).any f) =
      ((decide (idx = j) && f h) ||
        (decide (idx + 1 ≤ j) && (hs[j - (idx + 1)]?).any f)) := by
  rcases Nat.lt_trichotomy j idx with hlt | rfl | hgt
  · simp [Nat.not_le.2 hlt, Nat.ne_of_gt hlt, Nat.not_le.2 (Nat.lt_succ_of_lt hlt)]
  · simp
  · have hnext : j - idx = j - (idx + 1) + 1 := by omega
    rw [hnext, List.getElem?_cons_succ]
    simp [Nat.le_of_lt hgt, Nat.ne_of_lt hgt, Nat.succ_le_of_lt hgt]

/-- **The measuring pass visits every header once**, counts the admitted ones and marks
them.  The induction is on the headers left; the map has room for all of them. -/
theorem measureWalk_spec (conf : AdmitConf) {total : ℕ} :
    ∀ {hs : List TableElt} {idx : ℕ} {m : Measured}, idx + hs.length = total →
      (∀ bits, m.verdicts.bits = some bits → ∀ j < total, j / 8 < bits.length) →
      WalkSpec conf hs idx m (measureWalk conf total hs idx m) := by
  intro hs
  induction hs with
  | nil =>
    intro idx m _ _
    exact ⟨rfl, rfl, rfl, rfl, fun h => h, fun bits h => ⟨bits, h, fun j => by simp⟩⟩
  | cons h hs ih =>
    intro idx m htotal hroom
    rw [List.length_cons] at htotal
    have hidx : ¬ idx ≥ total := by omega
    unfold measureWalk
    rw [if_neg hidx]
    by_cases hadm : admitted conf h
    · rw [if_pos hadm]
      have hwalk := @ih (idx + 1)
        { hdrBytes := m.hdrBytes + pairBytes h.key h.value
          nheaders := m.nheaders + 1
          verdicts := verdictSet m.verdicts idx } (by omega) (by
            intro bits hbits j hj
            obtain ⟨bits₀, hbits₀, rfl⟩ := Option.map_eq_some_iff.1 hbits
            rw [Bitmap.length_set]
            exact hroom bits₀ hbits₀ j hj)
      refine ⟨?_, ?_, ?_, hwalk.ctAdmissible, fun hnone => hwalk.noMap (by simp [verdictSet, hnone]),
        ?_⟩
      · rw [hwalk.hdrBytes, List.filter_cons_of_pos hadm]
        simp only [List.map_cons, pairsBytes, List.sum_cons, TableElt.pair, Nat.add_assoc]
      · rw [hwalk.nheaders, List.filter_cons_of_pos hadm, List.length_cons]
        simp only
        omega
      · rw [hwalk.nvisited, List.length_cons]
        omega
      · intro bits hbits
        obtain ⟨bits', hbits', hget⟩ := hwalk.map (Bitmap.set bits idx) (by simp [verdictSet, hbits])
        refine ⟨bits', hbits', fun j => ?_⟩
        rw [hget j, Bitmap.get_set (hroom bits hbits idx (by omega)), rangeAny_cons, hadm, Bool.and_true,
          Bool.or_assoc]
    · have hno : admitted conf h = false := Bool.not_eq_true _ ▸ hadm
      rw [if_neg hadm]
      have hwalk := @ih (idx + 1) m (by omega) hroom
      refine ⟨?_, ?_, ?_, hwalk.ctAdmissible, hwalk.noMap, ?_⟩
      · rw [hwalk.hdrBytes, List.filter_cons_of_neg hadm]
      · rw [hwalk.nheaders, List.filter_cons_of_neg hadm]
      · rw [hwalk.nvisited, List.length_cons]
        omega
      · intro bits hbits
        obtain ⟨bits', hbits', hget⟩ := hwalk.map bits hbits
        refine ⟨bits', hbits', fun j => ?_⟩
        rw [hget j, rangeAny_cons, hno, Bool.and_false, Bool.false_or]

/-- The measuring pass has room in its map for every header. -/
theorem measureHeaders_walk (conf : AdmitConf) (room : Bool) (headers : List TableElt)
    (ct : Bytes) : WalkSpec conf headers 0 (measureStart conf room headers ct)
      (measureHeaders conf room headers ct) := by
  refine measureWalk_spec conf (Nat.zero_add _) fun bits hbits j hj => ?_
  unfold measureStart at hbits
  dsimp only at hbits
  split_ifs at hbits
  obtain rfl := Option.some.inj hbits
  exact Bitmap.lt_length_empty hj

/-- **What the measuring pass reports**: the bytes and the number of the stored headers. -/
theorem measureHeaders_spec (conf : AdmitConf) (room : Bool) (headers : List TableElt)
    (ct : Bytes) :
    let m := measureHeaders conf room headers ct
    m.hdrBytes = pairsBytes (admittedPairs conf headers ct) ∧
      m.nheaders = (admittedPairs conf headers ct).length ∧
        m.verdicts.nvisited = headers.length ∧ m.verdicts.ctAdmissible = ctAdmissible conf ct := by
  have hwalk := measureHeaders_walk conf room headers ct
  refine ⟨?_, ?_, ?_, hwalk.ctAdmissible⟩
  · rw [hwalk.hdrBytes, admittedPairs, measureStart]
    cases ctAdmissible conf ct
    · simp [pairsBytes]
    · simp [pairsBytes]
  · rw [hwalk.nheaders, admittedPairs, measureStart]
    cases ctAdmissible conf ct
    · simp
    · simp [Nat.add_comm]
  · rw [hwalk.nvisited, Nat.zero_add]

/-- **The verdicts reach the writing pass**: what it asks of a header is what the measuring
pass found, with the map and without it. -/
theorem verdictGet_measureHeaders (conf : AdmitConf) (room : Bool) {headers : List TableElt}
    (ct : Bytes) {idx : ℕ} {h : TableElt} (hget : headers[idx]? = some h) :
    verdictGet conf (measureHeaders conf room headers ct).verdicts idx h = admitted conf h := by
  have hlt : idx < headers.length := (List.getElem?_eq_some_iff.1 hget).1
  have hvisited := (measureHeaders_spec conf room headers ct).2.2.1
  have hwalk := measureHeaders_walk conf room headers ct
  unfold verdictGet
  by_cases hmap : headers.length > 0 ∧ room
  · obtain ⟨bits, hbits, hread⟩ := hwalk.map (Bitmap.empty headers.length) (if_pos hmap)
    rw [hbits, hvisited]
    simp only
    rw [if_neg (not_le.2 hlt), hread idx, Bitmap.get_empty, Nat.sub_zero, hget]
    simp
  · rw [hwalk.noMap (if_neg hmap)]

/-! ## The writing pass -/

/-- The header loop writes the headers that its verdicts admit. -/
theorem writeWalk_eq (conf : AdmitConf) (v : HdrVerdicts) :
    ∀ {hs : List TableElt} {idx : ℕ},
      (∀ k h, hs[k]? = some h → verdictGet conf v (idx + k) h = admitted conf h) →
      writeWalk conf v hs idx =
        ((hs.filter (admitted conf)).map TableElt.pair).flatMap fun p => ctPut p.1 p.2 := by
  intro hs
  induction hs with
  | nil =>
    intro idx _
    rfl
  | cons h hs ih =>
    intro idx hget
    have hhead := hget 0 h rfl
    have htail := @ih (idx + 1) fun k x hx => by
      rw [Nat.add_assoc, Nat.add_comm 1]
      exact hget (k + 1) x hx
    rw [Nat.add_zero] at hhead
    rw [writeWalk, hhead, htail]
    by_cases hadm : admitted conf h
    · rw [if_pos hadm, List.filter_cons_of_pos hadm]
      rfl
    · rw [if_neg hadm, List.filter_cons_of_neg hadm]
      rfl

/-- **Both passes agree**: the block that is written is the stored headers in their order. -/
theorem writeHeaders_eq (conf : AdmitConf) (room : Bool) (headers : List TableElt) (ct : Bytes) :
    writeHeaders conf headers ct (measureHeaders conf room headers ct).verdicts =
      (admittedPairs conf headers ct).flatMap fun p => ctPut p.1 p.2 := by
  have hct := (measureHeaders_spec conf room headers ct).2.2.2
  have hwalk := @writeWalk_eq conf (measureHeaders conf room headers ct).verdicts headers 0
    fun k h hk => by
      rw [Nat.zero_add]
      exact verdictGet_measureHeaders conf room ct hk
  rw [writeHeaders, hwalk, hct, admittedPairs, List.flatMap_append]
  have hlen : (ct.length ≠ 0 ∧ ctAdmissible conf ct) ↔ ctAdmissible conf ct := by
    refine ⟨fun h => h.2, fun h => ⟨?_, h⟩⟩
    rw [ctAdmissible, Bool.and_eq_true, decide_eq_true_eq] at h
    exact h.1
  simp only [hlen]
  cases ctAdmissible conf ct
  · rfl
  · simp

/-- **The block is as long as it was measured.** -/
theorem writeHeaders_length (conf : AdmitConf) (room : Bool) (headers : List TableElt)
    (ct : Bytes) :
    (writeHeaders conf headers ct (measureHeaders conf room headers ct).verdicts).length =
      (measureHeaders conf room headers ct).hdrBytes := by
  rw [writeHeaders_eq, (measureHeaders_spec conf room headers ct).1, List.length_flatMap,
    pairsBytes]
  congr 1
  refine List.map_congr_left fun p _ => ?_
  exact blobHeaderWrite_length _

/-- **The block reads back** as the stored headers, in their order. -/
theorem blobHrefs_writeHeaders (conf : AdmitConf) (room : Bool) (headers : List TableElt)
    (ct : Bytes) (hsize : (measureHeaders conf room headers ct).hdrBytes < 2 ^ 32) :
    blobHrefs (measureHeaders conf room headers ct).nheaders
        (writeHeaders conf headers ct (measureHeaders conf room headers ct).verdicts) =
      some ((admittedPairs conf headers ct).map pairHref) := by
  obtain ⟨hbytes, hcount, -⟩ := measureHeaders_spec conf room headers ct
  have hblock : ((admittedPairs conf headers ct).flatMap fun p => ctPut p.1 p.2) =
      ((admittedPairs conf headers ct).map pairHref).flatMap blobHeaderWrite := by
    rw [List.flatMap_map]
    rfl
  rw [hbytes] at hsize
  rw [writeHeaders_eq, hblock, hcount, ← List.length_map pairHref]
  refine blobHrefs_write fun h hh => ?_
  obtain ⟨p, hp, rfl⟩ := List.mem_map.1 hh
  have hle : pairBytes p.1 p.2 ≤ pairsBytes (admittedPairs conf headers ct) :=
    List.single_le_sum (fun _ _ => Nat.zero_le _) _ (List.mem_map_of_mem hp)
  have hpair : 1 + 4 + p.1.length + 4 + p.2.length < 2 ^ 32 := lt_of_le_of_lt hle hsize
  exact ⟨headerRole_le _, by show p.1.length < 2 ^ 32; omega, by show p.2.length < 2 ^ 32; omega⟩

/-- A header takes at least nine bytes. -/
theorem nine_mul_nheaders_le (conf : AdmitConf) (room : Bool) (headers : List TableElt)
    (ct : Bytes) :
    9 * (measureHeaders conf room headers ct).nheaders ≤
      (measureHeaders conf room headers ct).hdrBytes := by
  obtain ⟨hbytes, hcount, -⟩ := measureHeaders_spec conf room headers ct
  rw [hbytes, hcount]
  induction admittedPairs conf headers ct with
  | nil => exact Nat.le_refl _
  | cons p ps ih =>
    simp only [pairsBytes, List.map_cons, List.sum_cons, List.length_cons, pairBytes] at ih ⊢
    omega

/-! ## A whole blob -/

/-- A rendered `Date`: 29 printable bytes. -/
structure IsHttpDate (date : Bytes) : Prop where
  length : date.length = blobDateLen
  printable : ∀ c ∈ date, 32 ≤ c ∧ c ≤ 126

/-- What a blob's header tells its reader. -/
structure HdrOk (now : Time) (h : BlobHdr) : Prop where
  status : 100 ≤ h.status ∧ h.status ≤ 599
  windows : h.freshTtl ≤ h.staleTtl
  encoded : hasFlag h.flags blobfOriginEncoded = (flagsAeClass h.flags != 0)
  created : 0 ≤ h.created ∧ h.created ≤ now + foreverTtl
  count : h.nheaders ≤ h.headersLen / 9

/-- **A written blob is accepted**: its header fits and is sound, its block and its body are
as long as it says, and the block reads back. -/
theorem blobValidate_write {now : Time} {h : BlobHdr} {date block body : Bytes} {refs : List Href}
    (hfits : h.Fits) (hok : HdrOk now h) (hdate : IsHttpDate date)
    (hblock : block.length = h.headersLen) (hbody : body.length = h.bodyLen)
    (hrefs : blobHrefs h.nheaders block = some refs) :
    blobValidate now (blobHdrWrite h date ++ (block ++ body)) = some ⟨h, refs, body⟩ := by
  have hwire := blobHdrWrite_length h hdate.length
  have hread := blobHdrRead_write hfits date (block ++ body)
  obtain ⟨hmagic, hversion⟩ := blobHdrWrite_magic h date (block ++ body)
  have hlen : (blobHdrWrite h date ++ (block ++ body)).length =
      blobHdrWire + h.headersLen + h.bodyLen := by
    rw [List.length_append, List.length_append, hwire, hblock, hbody, Nat.add_assoc]
  have hshape : blobHdrWrite h date ++ (block ++ body) =
      (blobHdrHead h ++ putU32 h.freshTtl ++ putU32 h.staleTtl ++ putU32 h.sieTtl) ++
        (29 :: (date ++ ([0, 0] ++ (block ++ body)))) := by
    simp [blobHdrWrite, blobHdrHead]
  have hfront : (blobHdrHead h ++ putU32 h.freshTtl ++ putU32 h.staleTtl ++
      putU32 h.sieTtl).length = 44 := rfl
  have hdateLen : (blobHdrWrite h date ++ (block ++ body)).getD 44 0 = 29 := by
    rw [hshape, List.getD_append_right _ _ _ _ (by rw [hfront]), hfront]
    rfl
  have hdrop44 : (blobHdrWrite h date ++ (block ++ body)).drop 44 =
      29 :: (date ++ ([0, 0] ++ (block ++ body))) := by
    rw [hshape, List.drop_left' hfront]
  have hdateRead : ((blobHdrWrite h date ++ (block ++ body)).drop blobDateOff).take blobDateLen =
      date := by
    have hdrop45 : (blobHdrWrite h date ++ (block ++ body)).drop (44 + 1) =
        date ++ ([0, 0] ++ (block ++ body)) := by
      rw [← List.drop_drop, hdrop44]
      rfl
    rw [show blobDateOff = 44 + 1 from rfl, hdrop45, List.take_left' hdate.length]
  have hprintable : date.any (fun c => c < 32 || c > 126) = false := by
    rw [List.any_eq_false]
    intro c hc
    obtain ⟨hlow, hhigh⟩ := hdate.printable c hc
    simp [hlow, hhigh]
  have haccept : blobHdrRefused now (blobHdrWrite h date ++ (block ++ body)) = false := by
    unfold blobHdrRefused
    rw [hread, hlen, hmagic, hversion, hdateLen, hdateRead, hprintable]
    dsimp only
    rw [hok.encoded]
    obtain ⟨⟨hlow, hhigh⟩, hwindows, -, ⟨hborn, hsoon⟩, hcount⟩ := hok
    simp [blobDateLen, Nat.not_lt.2, hlow, hhigh, hwindows, hborn, hsoon, hcount]
    omega
  have hdropWire : (blobHdrWrite h date ++ (block ++ body)).drop blobHdrWire = block ++ body :=
    List.drop_left' hwire
  unfold blobValidate
  rw [haccept, hread]
  simp only [Bool.false_eq_true, if_false]
  rw [hdropWire, List.take_left' hblock, hrefs, ← List.drop_drop, hdropWire, List.drop_left' hblock,
    List.take_of_length_le (by omega)]
  rfl

/-! ## The vetted bit -/

/-- `NGX_HTTP_CACHE_TURBO_BLOBF_HDRS_VETTED`. -/
def blobfHdrsVetted : ℕ := 0x0020

/-- The flags without the vetted bit. -/
def clearVetted (flags : ℕ) : ℕ := flags &&& (0xFFFF ^^^ blobfHdrsVetted)

/-- `ngx_http_cache_turbo_blob_clear_vetted`. -/
def blobClearVetted (blob : Bytes) : Bytes :=
  if blob.length < blobHdrWire then blob
  else blob.take 6 ++ (putU16 (clearVetted (getU16 blob 6)) ++ blob.drop 8)

/-- A decoded blob without the vetted bit. -/
def ValidBlob.clearVetted (v : ValidBlob) : ValidBlob :=
  { v with hdr.flags := Blob.clearVetted v.hdr.flags }

theorem clearVetted_lt {flags : ℕ} (h : flags < 2 ^ 16) : clearVetted flags < 2 ^ 16 :=
  lt_of_le_of_lt Nat.and_le_left h

/-- The vetted bit is no part of another flag. -/
theorem clearVetted_and (flags : ℕ) {mask : ℕ} (h : (0xFFFF ^^^ blobfHdrsVetted) &&& mask = mask) :
    clearVetted flags &&& mask = flags &&& mask := by
  rw [clearVetted, Nat.and_assoc, h]

theorem getU16_lt (p : Bytes) (off : ℕ) : getU16 p off < 2 ^ 16 := by
  have h0 := (p.getD off 0).toNat_lt
  have h1 := (p.getD (off + 1) 0).toNat_lt
  rw [getU16, @or_shiftLeft _ _ 8 (by omega)]
  omega

section ClearVetted

variable {blob : Bytes} (hlen : ¬ blob.length < blobHdrWire)

include hlen

theorem blobClearVetted_eq : blobClearVetted blob =
    blob.take 6 ++ (putU16 (clearVetted (getU16 blob 6)) ++ blob.drop 8) := if_neg hlen

theorem blobClearVetted_length : (blobClearVetted blob).length = blob.length := by
  have hwire : ¬ blob.length < 76 := hlen
  rw [blobClearVetted_eq hlen]
  simp only [List.length_append, List.length_take, List.length_drop, putU16, List.length_cons,
    List.length_nil]
  omega

/-- Nothing after the flags changes. -/
theorem blobClearVetted_drop {n : ℕ} (hn : 8 ≤ n) :
    (blobClearVetted blob).drop n = blob.drop n := by
  have hwire : ¬ blob.length < 76 := hlen
  have hpre : (blob.take 6 ++ putU16 (clearVetted (getU16 blob 6))).length = 8 := by
    rw [List.length_append, List.length_take, Nat.min_eq_left (by omega)]
    rfl
  obtain ⟨k, rfl⟩ := Nat.exists_eq_add_of_le hn
  rw [blobClearVetted_eq hlen, ← List.append_assoc, ← List.drop_drop, List.drop_left' hpre,
    List.drop_drop]

/-- No byte but the two of the flags changes. -/
theorem blobClearVetted_getD {k : ℕ} (hk : k < 6 ∨ 8 ≤ k) :
    (blobClearVetted blob).getD k 0 = blob.getD k 0 := by
  have hwire : ¬ blob.length < 76 := hlen
  rcases hk with hk | hk
  · have htake : k < (blob.take 6).length := by
      rw [List.length_take]
      omega
    rw [blobClearVetted_eq hlen, List.getD_append _ _ _ _ htake, List.getD_eq_getElem _ _ htake,
      List.getElem_take, List.getD_eq_getElem]
  · have hread : ∀ p : Bytes, p.getD k 0 = (p.drop 8).getD (k - 8) 0 := by
      intro p
      rw [List.getD_eq_getElem?_getD, List.getD_eq_getElem?_getD, List.getElem?_drop]
      congr 3
      omega
    rw [hread, hread blob, blobClearVetted_drop hlen (Nat.le_refl 8)]

theorem blobClearVetted_getU32 {k : ℕ} (hk : k + 3 < 6 ∨ 8 ≤ k) :
    getU32 (blobClearVetted blob) k = getU32 blob k := by
  simp only [getU32]
  rw [blobClearVetted_getD hlen (by omega), blobClearVetted_getD hlen (by omega),
    blobClearVetted_getD hlen (by omega), blobClearVetted_getD hlen (by omega)]

theorem blobClearVetted_flags :
    getU16 (blobClearVetted blob) 6 = clearVetted (getU16 blob 6) := by
  have hwire : ¬ blob.length < 76 := hlen
  rw [blobClearVetted_eq hlen]
  refine getU16_at ?_ (clearVetted_lt (getU16_lt _ _)) _
  rw [List.length_take]
  omega

/-- The fixed header loses the vetted bit and nothing else. -/
theorem blobHdrRead_clearVetted : blobHdrRead (blobClearVetted blob) =
    { blobHdrRead blob with flags := clearVetted (blobHdrRead blob).flags } := by
  have hword : ∀ k, 8 ≤ k → getU32 (blobClearVetted blob) k = getU32 blob k := fun k hk =>
    blobClearVetted_getU32 hlen (Or.inr hk)
  simp only [blobHdrRead, getU64]
  rw [blobClearVetted_flags hlen, hword 8 (by decide), hword 12 (by decide), hword 16 (by decide),
    hword 20 (by decide), hword 24 (by decide), hword 28 (by decide), hword 32 (by decide),
    hword 36 (by decide), hword 40 (by decide)]

theorem blobHdrRefused_clearVetted (now : Time) :
    blobHdrRefused now (blobClearVetted blob) = blobHdrRefused now blob := by
  have hversion : getU16 (blobClearVetted blob) 4 = getU16 blob 4 := by
    simp only [getU16]
    rw [blobClearVetted_getD hlen (by omega), blobClearVetted_getD hlen (by omega)]
  have hmagic : getU32 (blobClearVetted blob) 0 = getU32 blob 0 :=
    blobClearVetted_getU32 hlen (by decide)
  have hlength : (blobClearVetted blob).getD 44 0 = blob.getD 44 0 :=
    blobClearVetted_getD hlen (by decide)
  have hdate : (blobClearVetted blob).drop blobDateOff = blob.drop blobDateOff :=
    blobClearVetted_drop hlen (by decide)
  have hencoded : ∀ flags, hasFlag (clearVetted flags) blobfOriginEncoded =
      hasFlag flags blobfOriginEncoded := fun flags => by
    rw [hasFlag, hasFlag, clearVetted_and flags (by decide)]
  have hclass : ∀ flags, flagsAeClass (clearVetted flags) = flagsAeClass flags := fun flags => by
    rw [flagsAeClass, flagsAeClass, clearVetted_and flags (by decide)]
  unfold blobHdrRefused
  rw [blobHdrRead_clearVetted hlen, blobClearVetted_length hlen, hmagic, hversion, hlength, hdate]
  simp only [hencoded, hclass]

end ClearVetted

/-- **Clearing the vetted bit changes no other value that is read**, in any blob. -/
theorem blobValidate_clearVetted (now : Time) (blob : Bytes) :
    blobValidate now (blobClearVetted blob) =
      (blobValidate now blob).map ValidBlob.clearVetted := by
  by_cases hlen : blob.length < blobHdrWire
  · have hsame : blobClearVetted blob = blob := if_pos hlen
    have hnone : blobValidate now blob = none := by
      have hrefused : blobHdrRefused now blob = true := by
        unfold blobHdrRefused
        rw [decide_eq_true hlen]
        simp only [Bool.true_or]
      unfold blobValidate
      rw [if_pos hrefused]
    rw [hsame, hnone]
    rfl
  · have hdrop : ∀ k, (blobClearVetted blob).drop (blobHdrWire + k) = blob.drop (blobHdrWire + k) :=
      fun k => blobClearVetted_drop hlen (Nat.le_add_right_of_le (by decide))
    have hblock := hdrop 0
    rw [Nat.add_zero] at hblock
    unfold blobValidate
    simp only [blobHdrRefused_clearVetted hlen, blobHdrRead_clearVetted hlen, hblock, hdrop]
    split_ifs
    · rfl
    · rw [Option.map_map]
      rfl

end Blob
end CacheTurbo
