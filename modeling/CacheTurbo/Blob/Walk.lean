/-
# Validation, read by read

`ngx_http_cache_turbo_blob_validate` and `ngx_http_cache_turbo_blob_next_header` as they run on a
buffer: a pointer is a place in the buffer, the distance of two pointers is a `size_t`, and a read
outside the buffer is a stop of its own.  The three forms of the call differ in where the references
go (`RefsForm`).

On every buffer the run reads inside it and decides as `blobValidate` does; the references it yields
tile the front of the header block (`Tiled`).
-/

import CacheTurbo.Blob.Headers
import CacheTurbo.Lib.Slice

namespace CacheTurbo
namespace Blob
namespace Walk

open Shm (getU32 getU64 timeOfU64)
open Slice

/-! ## Reads -/

/-- How a run can end without a result: `NGX_ERROR`, or a read outside the buffer. -/
inductive Stop
  | refused
  | outside
  deriving DecidableEq, Repr

def readByte (blob : Bytes) (p : ℕ) : Except Stop UInt8 :=
  match blob[p]? with
  | some c => .ok c
  | none => .error .outside

/-- `ngx_http_cache_turbo_get_u16` at a place. -/
def readU16 (blob : Bytes) (p : ℕ) : Except Stop ℕ := do
  let b₀ ← readByte blob p
  let b₁ ← readByte blob (p + 1)
  .ok (b₀.toNat ||| b₁.toNat <<< 8)

/-- `ngx_http_cache_turbo_get_u32` at a place. -/
def readU32 (blob : Bytes) (p : ℕ) : Except Stop ℕ := do
  let b₀ ← readByte blob p
  let b₁ ← readByte blob (p + 1)
  let b₂ ← readByte blob (p + 2)
  let b₃ ← readByte blob (p + 3)
  .ok (b₀.toNat ||| b₁.toNat <<< 8 ||| b₂.toNat <<< 16 ||| b₃.toNat <<< 24)

/-- `ngx_http_cache_turbo_get_u64` at a place. -/
def readU64 (blob : Bytes) (p : ℕ) : Except Stop ℕ := do
  let low ← readU32 blob p
  let high ← readU32 blob (p + 4)
  .ok (low ||| high <<< 32)

/-- A difference of two `size_t`. -/
def sizeSub (a b : ℕ) : ℕ := (a + 2 ^ 64 - b) % 2 ^ 64

/-! ## The walk -/

/-- `ngx_http_cache_turbo_blob_href_t`, its pointers as places. -/
structure HrefAt where
  role : ℕ
  name : ℕ
  nlen : ℕ
  val : ℕ
  vlen : ℕ
  deriving DecidableEq, Repr

/-- `ngx_http_cache_turbo_blob_next_header` between `p` and `last`; `none` is `NGX_DONE`. -/
def nextHeader (blob : Bytes) (p last : ℕ) : Except Stop (Option (HrefAt × ℕ)) :=
  if sizeSub last p < 9 then .ok none
  else do
    let rl ← readByte blob p
    let p := p + 1
    if rl.toNat > hroleMax then .ok none
    else do
      let nl ← readU32 blob p
      let p := p + 4
      if sizeSub last p < nl then .ok none
      else do
        let name := p
        let p := p + nl
        if sizeSub last p < 4 then .ok none
        else do
          let vl ← readU32 blob p
          let p := p + 4
          if sizeSub last p < vl then .ok none
          else .ok (some (⟨rl.toNat, name, nl, p, vl⟩, p + vl))

/-- The loop of `blob_validate` over `n` headers. -/
def walk (blob : Bytes) (last : ℕ) : ℕ → ℕ → Except Stop (List HrefAt)
  | 0, _ => .ok []
  | n + 1, p => do
    match ← nextHeader blob p last with
    | none => .error .refused
    | some (r, p) =>
      let refs ← walk blob last n p
      .ok (r :: refs)

theorem walk_of_done {blob : Bytes} {p last : ℕ} (h : nextHeader blob p last = .ok none) (n : ℕ) :
    walk blob last (n + 1) p = .error .refused := by
  rw [walk, h]
  rfl

theorem walk_of_header {blob : Bytes} {p last q : ℕ} {r : HrefAt}
    (h : nextHeader blob p last = .ok (some (r, q))) (n : ℕ) :
    walk blob last (n + 1) p = (walk blob last n q).map (r :: ·) := by
  rw [walk, h]
  rfl

/-! ## The call -/

/-- The last arguments of a call: whether it asks for the references (`refs_out`), how many fit in
its own array (`refs_buf`), and its pool with what that answers. -/
structure RefsForm where
  refsOut : Bool
  refsBuf : Option ℕ
  pool : Option Bool
  deriving DecidableEq, Repr

/-- Where the references go. -/
inductive RefsPlace
  | nowhere
  | buf
  | pool
  deriving DecidableEq, Repr

/-- The choice of the array, before the walk. -/
def refsPlace (form : RefsForm) (nheaders : ℕ) : Except Stop RefsPlace :=
  let fits := match form.refsBuf with
    | some cap => decide (nheaders ≤ cap)
    | none => false
  if form.refsOut && decide (nheaders > 0) then
    if fits then .ok .buf
    else
      match form.pool with
      | some true => .ok .pool
      | some false => .error .refused
      | none => .ok .nowhere
  else .ok .nowhere

/-- What `blob_validate` writes through its pointers; `refs` is `none` for `NULL`. -/
structure Parsed where
  hdr : BlobHdr
  date : ℕ
  hdrBlock : ℕ
  body : ℕ
  refs : Option (List HrefAt)
  deriving DecidableEq, Repr

/-- The fixed header, field by field. -/
def readHdr (blob : Bytes) : Except Stop BlobHdr := do
  let status ← readU32 blob 8
  let nheaders ← readU32 blob 12
  let headersLen ← readU32 blob 16
  let bodyLen ← readU32 blob 20
  let created ← readU64 blob 24
  let freshTtl ← readU32 blob 32
  let staleTtl ← readU32 blob 36
  let sieTtl ← readU32 blob 40
  let flags ← readU16 blob 6
  .ok
    { flags := flags
      status := status
      nheaders := nheaders
      headersLen := headersLen
      bodyLen := bodyLen
      created := timeOfU64 created
      freshTtl := freshTtl
      staleTtl := staleTtl
      sieTtl := sieTtl }

/-- The scan of the stored date. -/
def dateScan (blob : Bytes) : ℕ → ℕ → Except Stop Unit
  | 0, _ => .ok ()
  | n + 1, p => do
    let c ← readByte blob p
    if c < 32 ∨ c > 126 then .error .refused else dateScan blob n (p + 1)

/-- `ngx_http_cache_turbo_blob_validate` at time `now`. -/
def validate (now : Time) (blob : Bytes) (form : RefsForm) : Except Stop Parsed :=
  if blob.length < blobHdrWire then .error .refused
  else do
    let magic ← readU32 blob 0
    let version ← readU16 blob 4
    if magic ≠ blobMagic ∨ version ≠ blobVersion then .error .refused
    else do
      let h ← readHdr blob
      if h.status < 100 ∨ h.status > 599 then .error .refused
      else if h.staleTtl < h.freshTtl then .error .refused
      else if (hasFlag h.flags blobfOriginEncoded != (flagsAeClass h.flags != 0)) = true then
        .error .refused
      else if h.created < 0 ∨ h.created > now + foreverTtl then .error .refused
      else do
        let dateLen ← readByte blob 44
        if dateLen.toNat ≠ blobDateLen then .error .refused
        else do
          dateScan blob blobDateLen blobDateOff
          -- the second difference is taken only where the first one leaves room
          if h.headersLen > sizeSub blob.length blobHdrWire ∨
              h.bodyLen > sizeSub (sizeSub blob.length blobHdrWire) h.headersLen then
            .error .refused
          else if h.nheaders > h.headersLen / 9 then .error .refused
          else do
            let last := blobHdrWire + h.headersLen
            let place ← refsPlace form h.nheaders
            let refs ← walk blob last h.nheaders blobHdrWire
            .ok
              { hdr := h
                date := blobDateOff
                hdrBlock := blobHdrWire
                body := last
                refs := if place = .nowhere then none else some refs }

/-! ## Reads inside the buffer -/

section Reads

variable {blob : Bytes}

theorem readByte_eq {p : ℕ} (h : p < blob.length) : readByte blob p = .ok (blob.getD p 0) := by
  rw [readByte, List.getElem?_eq_getElem h, List.getD_eq_getElem _ _ h]

theorem readU16_eq {p : ℕ} (h : p + 2 ≤ blob.length) : readU16 blob p = .ok (getU16 blob p) := by
  rw [readU16, readByte_eq (by omega), readByte_eq (by omega), getU16]
  rfl

theorem readU32_eq {p : ℕ} (h : p + 4 ≤ blob.length) : readU32 blob p = .ok (getU32 blob p) := by
  rw [readU32, readByte_eq (by omega), readByte_eq (by omega), readByte_eq (by omega),
    readByte_eq (by omega), getU32]
  rfl

theorem readU64_eq {p : ℕ} (h : p + 8 ≤ blob.length) : readU64 blob p = .ok (getU64 blob p) := by
  rw [readU64, readU32_eq (by omega), readU32_eq (by omega), getU64]
  rfl

theorem readHdr_eq (h : blobHdrWire ≤ blob.length) : readHdr blob = .ok (blobHdrRead blob) := by
  have hwire : 76 ≤ blob.length := h
  rw [readHdr, readU32_eq (by omega), readU32_eq (by omega), readU32_eq (by omega),
    readU32_eq (by omega), readU64_eq (by omega), readU32_eq (by omega), readU32_eq (by omega),
    readU32_eq (by omega), readU16_eq (by omega)]
  rfl

/-- The scan looks at the bytes of the date and at no other. -/
theorem dateScan_eq {n p : ℕ} (h : p + n ≤ blob.length) : dateScan blob n p =
    if ((blob.drop p).take n).any (fun c => c < 32 || c > 126) then .error .refused
    else .ok () := by
  induction n generalizing p with
  | zero => rfl
  | succ n ih =>
    have hp : p < blob.length := by omega
    rw [dateScan, readByte_eq hp, List.drop_eq_getElem_cons hp, List.take_succ_cons, List.any_cons,
      List.getD_eq_getElem _ _ hp]
    show (if _ then _ else _) = _
    by_cases hc : blob[p] < 32 ∨ blob[p] > 126
    · rw [if_pos hc, if_pos]
      simp [hc]
    · rw [if_neg hc, ih (by omega)]
      have hno : (decide (blob[p] < 32) || decide (blob[p] > 126)) = false := by
        simpa using hc
      rw [hno, Bool.false_or]

end Reads

theorem sizeSub_eq {a b : ℕ} (h : b ≤ a) (ha : a < 2 ^ 64) : sizeSub a b = a - b := by
  rw [sizeSub]
  omega

/-! ## The walk over the header block -/

/-- The references tile the block from `p` on, each right behind the one before it. -/
def Tiled (last : ℕ) : ℕ → List HrefAt → Prop
  | p, [] => p ≤ last
  | p, r :: refs => r.name = p + 5 ∧ r.val = r.name + r.nlen + 4 ∧ r.role ≤ hroleMax ∧
      Tiled last (r.val + r.vlen) refs

/-- What a reference refers to. -/
def HrefAt.text (blob : Bytes) (r : HrefAt) : Href :=
  ⟨r.role, slice blob r.name (r.name + r.nlen), slice blob r.val (r.val + r.vlen)⟩

section Entries

variable {blob : Bytes} {p last : ℕ} (hlast : last ≤ blob.length) (hlen : blob.length < 2 ^ 64)

include hlast hlen

/-- **One header is read inside the block**, as the list reads it. -/
theorem nextHeader_spec (hp : p ≤ last) :
    (nextHeader blob p last = .ok none ∧ blobNextHeader (slice blob p last) = none) ∨
    ∃ r, nextHeader blob p last = .ok (some (r, r.val + r.vlen)) ∧ r.name = p + 5 ∧
      r.val = r.name + r.nlen + 4 ∧ r.role ≤ hroleMax ∧ r.val + r.vlen ≤ last ∧
      blobNextHeader (slice blob p last) =
        some (r.text blob, slice blob (r.val + r.vlen) last) := by
  have hroom : last < 2 ^ 64 := hlast.trans_lt hlen
  have hsub : ∀ q, q ≤ last → sizeSub last q = last - q := fun q hq => sizeSub_eq hq hroom
  unfold nextHeader blobNextHeader
  rw [hsub p hp, slice_length hlast]
  by_cases hnine : last - p < 9
  · rw [if_pos hnine, if_pos hnine]
    exact Or.inl ⟨rfl, rfl⟩
  have hrole : (slice blob p last).getD 0 0 = blob.getD p 0 := slice_getD (by omega) 0
  rw [if_neg hnine, if_neg hnine, readByte_eq (by omega), hrole]
  dsimp only [bind, Except.bind]
  by_cases hmax : (blob.getD p 0).toNat > hroleMax
  · rw [if_pos hmax, if_pos hmax]
    exact Or.inl ⟨rfl, rfl⟩
  have hword : ∀ q, q + 4 ≤ last → getU32 (slice blob q last) 0 = getU32 blob q := by
    intro q hq
    simp only [getU32]
    rw [slice_getD (by omega), slice_getD (by omega), slice_getD (by omega),
      slice_getD (by omega)]
    simp only [Nat.add_zero, Nat.zero_add]
  rw [if_neg hmax, if_neg hmax, readU32_eq (by omega), slice_drop, hword (p + 1) (by omega),
    slice_drop, slice_length hlast]
  dsimp only
  rw [hsub _ (by omega)]
  by_cases hname : last - (p + 1 + 4) < getU32 blob (p + 1)
  · rw [if_pos hname, if_pos hname]
    exact Or.inl ⟨rfl, rfl⟩
  rw [if_neg hname, if_neg hname, hsub _ (by omega), slice_drop, slice_length hlast,
    slice_take (by omega)]
  by_cases hfour : last - (p + 1 + 4 + getU32 blob (p + 1)) < 4
  · rw [if_pos hfour, if_pos hfour]
    exact Or.inl ⟨rfl, rfl⟩
  rw [if_neg hfour, if_neg hfour, readU32_eq (by omega), hword _ (by omega), slice_drop,
    slice_length hlast]
  dsimp only
  rw [hsub _ (by omega)]
  generalize hval : p + 1 + 4 + getU32 blob (p + 1) + 4 = val
  by_cases hvlen : last - val < getU32 blob (p + 1 + 4 + getU32 blob (p + 1))
  · rw [if_pos hvlen, if_pos hvlen]
    exact Or.inl ⟨rfl, rfl⟩
  rw [if_neg hvlen, if_neg hvlen, slice_drop, slice_take (by omega)]
  exact Or.inr ⟨_, rfl, rfl, hval.symm, not_lt.1 hmax, by dsimp only; omega, rfl⟩

/-- **The walk reads inside the block**, and what it yields tiles the block's front. -/
theorem walk_spec (n : ℕ) (hp : p ≤ last) :
    (walk blob last n p = .error .refused ∧ blobHrefs n (slice blob p last) = none) ∨
    ∃ refs, walk blob last n p = .ok refs ∧ refs.length = n ∧ Tiled last p refs ∧
      blobHrefs n (slice blob p last) = some (refs.map (HrefAt.text blob)) := by
  induction n generalizing p with
  | zero => exact Or.inr ⟨[], rfl, rfl, hp, rfl⟩
  | succ n ih =>
    rw [blobHrefs]
    obtain ⟨hdone, hnone⟩ | ⟨r, hone, hname, hval, hrole, hend, hsome⟩ :=
      nextHeader_spec hlast hlen hp
    · rw [walk_of_done hdone, hnone]
      exact Or.inl ⟨rfl, rfl⟩
    · rw [walk_of_header hone, hsome]
      dsimp only
      obtain ⟨hstop, hnone⟩ | ⟨refs, hwalk, hcount, htiled, hrefs⟩ := ih hend
      · rw [hstop, hnone]
        exact Or.inl ⟨rfl, rfl⟩
      · rw [hwalk, hrefs]
        refine Or.inr ⟨r :: refs, rfl, ?_, ⟨hname, hval, hrole, htiled⟩, rfl⟩
        rw [List.length_cons, hcount]

end Entries

/-! ## The whole call -/

/-- What is left of the call when no check has refused the fixed header. -/
def validateWalk (blob : Bytes) (form : RefsForm) : Except Stop Parsed := do
  let h := blobHdrRead blob
  let last := blobHdrWire + h.headersLen
  let place ← refsPlace form h.nheaders
  let refs ← walk blob last h.nheaders blobHdrWire
  .ok
    { hdr := h
      date := blobDateOff
      hdrBlock := blobHdrWire
      body := last
      refs := if place = .nowhere then none else some refs }

/-- **The checks read the fixed header and nothing else**, and refuse what `blobHdrRefused`
refuses. -/
theorem validate_eq (now : Time) {blob : Bytes} (hlen : blob.length < 2 ^ 64) (form : RefsForm) :
    validate now blob form =
      if blobHdrRefused now blob then .error .refused else validateWalk blob form := by
  unfold validate blobHdrRefused
  by_cases hwire : blob.length < blobHdrWire
  · rw [if_pos hwire, if_pos (by simp [hwire])]
  have hroom : 76 ≤ blob.length := not_lt.1 hwire
  have hsub : sizeSub blob.length blobHdrWire = blob.length - blobHdrWire :=
    sizeSub_eq (not_lt.1 hwire) hlen
  rw [if_neg hwire, readU32_eq (by omega), readU16_eq (by omega), readHdr_eq hroom,
    readByte_eq (by omega), dateScan_eq (show blobDateOff + blobDateLen ≤ blob.length by
      show 45 + 29 ≤ blob.length
      omega), hsub]
  dsimp only [bind, Except.bind, validateWalk]
  generalize blobHdrRead blob = h
  have hbody : ¬ h.headersLen > blob.length - blobHdrWire →
      sizeSub (blob.length - blobHdrWire) h.headersLen =
        blob.length - blobHdrWire - h.headersLen := fun hfit =>
    sizeSub_eq (not_lt.1 hfit) (lt_of_le_of_lt (Nat.sub_le _ _) hlen)
  simp only [Bool.or_eq_true, decide_eq_true_eq, ite_or, if_neg hwire]
  cases ((blob.drop blobDateOff).take blobDateLen).any fun c => decide (c < 32) || decide (c > 126) with
  | true => rfl
  | false =>
    by_cases hfit : h.headersLen > blob.length - blobHdrWire
    · simp only [if_pos hfit]
      rfl
    · simp only [hbody hfit]
      rfl

/-- What a fixed header says that no check has refused. -/
structure HdrSound (now : Time) (blob : Bytes) : Prop where
  wire : blobHdrWire ≤ blob.length
  status : 100 ≤ (blobHdrRead blob).status ∧ (blobHdrRead blob).status ≤ 599
  windows : (blobHdrRead blob).freshTtl ≤ (blobHdrRead blob).staleTtl
  coding : flagsAeClass (blobHdrRead blob).flags ≠ 0 ↔
    hasFlag (blobHdrRead blob).flags blobfOriginEncoded = true
  created : 0 ≤ (blobHdrRead blob).created ∧ (blobHdrRead blob).created ≤ now + foreverTtl
  date : IsHttpDate ((blob.drop blobDateOff).take blobDateLen)
  inside : blobHdrWire + (blobHdrRead blob).headersLen + (blobHdrRead blob).bodyLen ≤ blob.length

theorem hdrSound_of_not_refused {now : Time} {blob : Bytes} (h : blobHdrRefused now blob = false) :
    HdrSound now blob := by
  simp only [blobHdrRefused, Bool.or_eq_false_iff, decide_eq_false_iff_not, not_or] at h
  obtain ⟨⟨⟨⟨⟨⟨⟨⟨⟨hwire, -⟩, hstatus⟩, hstale⟩, hcoding⟩, hcreated⟩, -⟩, hdate⟩, hsizes⟩, -⟩ := h
  have hroom : 76 ≤ blob.length := not_lt.1 hwire
  constructor
  · exact hroom
  · exact ⟨not_lt.1 hstatus.1, not_lt.1 hstatus.2⟩
  · exact not_lt.1 hstale
  · have hsame : hasFlag (blobHdrRead blob).flags blobfOriginEncoded =
        (flagsAeClass (blobHdrRead blob).flags != 0) := by
      simpa using hcoding
    rw [hsame, bne_iff_ne]
  · exact ⟨not_lt.1 hcreated.1, not_lt.1 hcreated.2⟩
  · rw [List.any_eq_false] at hdate
    refine ⟨?_, fun c hc => ?_⟩
    · rw [List.length_take, List.length_drop]
      show min 29 (blob.length - 45) = 29
      omega
    · simpa using hdate c hc
  · omega

/-- The pool grants what a call asks of it. -/
def RefsForm.Granted (form : RefsForm) : Prop := form.pool ≠ some false

theorem refsPlace_granted {form : RefsForm} (h : form.Granted) (n : ℕ) :
    ∃ place, refsPlace form n = .ok place := by
  unfold refsPlace
  dsimp only
  split_ifs
  · exact ⟨_, rfl⟩
  · rcases hpool : form.pool with _ | _ | _
    · exact ⟨_, rfl⟩
    · exact absurd hpool h
    · exact ⟨_, rfl⟩
  · exact ⟨_, rfl⟩

/-- A call that asks for the references, with a pool that grants them. -/
structure RefsForm.Refs (form : RefsForm) : Prop where
  refsOut : form.refsOut = true
  pool : form.pool = some true

theorem refsPlace_refs {form : RefsForm} (h : form.Refs) (n : ℕ) :
    ∃ place, refsPlace form n = .ok place ∧ (place = .nowhere ↔ n = 0) := by
  unfold refsPlace
  rw [h.refsOut, h.pool]
  dsimp only
  by_cases hn : n = 0
  · subst hn
    exact ⟨.nowhere, by simp, by simp⟩
  · have hpos : (true && decide (n > 0)) = true := by
      rw [Bool.true_and]
      exact decide_eq_true (Nat.pos_of_ne_zero hn)
    rw [if_pos hpos]
    split_ifs
    · exact ⟨.buf, rfl, by simp [hn]⟩
    · exact ⟨.pool, rfl, by simp [hn]⟩

theorem refsPlace_error {form : RefsForm} {n : ℕ} {stop : Stop}
    (h : refsPlace form n = .error stop) : stop = .refused := by
  unfold refsPlace at h
  dsimp only at h
  split_ifs at h
  rcases hpool : form.pool with _ | _ | _
  all_goals rw [hpool] at h
  all_goals cases h
  rfl

/-- What a call gives that is not refused. -/
def parsed (v : ValidBlob) (place : RefsPlace) (refs : List HrefAt) : Parsed :=
  { hdr := v.hdr
    date := blobDateOff
    hdrBlock := blobHdrWire
    body := blobHdrWire + v.hdr.headersLen
    refs := if place = .nowhere then none else some refs }

/-- The references of a blob are those of its header block. -/
structure WalkOf (blob : Bytes) (v : ValidBlob) (refs : List HrefAt) : Prop where
  walk : walk blob (blobHdrWire + v.hdr.headersLen) v.hdr.nheaders blobHdrWire = .ok refs
  count : refs.length = v.hdr.nheaders
  tiled : Tiled (blobHdrWire + v.hdr.headersLen) blobHdrWire refs
  text : v.refs = refs.map (HrefAt.text blob)

/-- **A call decides as `blobValidate` does**, with the references at their places, unless its pool
refuses the array. -/
theorem validate_spec (now : Time) {blob : Bytes} (hlen : blob.length < 2 ^ 64) (form : RefsForm) :
    (blobValidate now blob = none ∧ validate now blob form = .error .refused) ∨
    ∃ v refs, blobValidate now blob = some v ∧ WalkOf blob v refs ∧
      validate now blob form =
        (refsPlace form v.hdr.nheaders).map fun place => parsed v place refs := by
  rw [validate_eq now hlen, blobValidate]
  cases hrefused : blobHdrRefused now blob with
  | true => exact Or.inl ⟨rfl, rfl⟩
  | false =>
    have hsound := hdrSound_of_not_refused hrefused
    have hinside := hsound.inside
    have hblock : (blob.drop blobHdrWire).take (blobHdrRead blob).headersLen =
        slice blob blobHdrWire (blobHdrWire + (blobHdrRead blob).headersLen) :=
      take_drop_eq_slice _
    simp only [Bool.false_eq_true, if_false, validateWalk, hblock]
    obtain ⟨hstop, hnone⟩ | ⟨refs, hwalk, hcount, htiled, hrefs⟩ :=
      walk_spec (by omega) hlen (blobHdrRead blob).nheaders
        (Nat.le_add_right blobHdrWire (blobHdrRead blob).headersLen)
    · rw [hstop, hnone]
      refine Or.inl ⟨rfl, ?_⟩
      rcases hplace : refsPlace form (blobHdrRead blob).nheaders with stop | place
      · rw [refsPlace_error hplace]
        rfl
      · rfl
    · rw [hwalk, hrefs]
      refine Or.inr ⟨_, refs, rfl, ⟨hwalk, hcount, htiled, rfl⟩, ?_⟩
      cases refsPlace form (blobHdrRead blob).nheaders <;> rfl

/-- **No call reads outside the buffer.** -/
theorem validate_ne_outside (now : Time) {blob : Bytes} (hlen : blob.length < 2 ^ 64)
    (form : RefsForm) : validate now blob form ≠ .error .outside := by
  intro hout
  rcases validate_spec now hlen form with ⟨-, hrefused⟩ | ⟨v, refs, -, -, hcall⟩
  · rw [hrefused] at hout
    cases hout
  · rw [hcall] at hout
    rcases hplace : refsPlace form v.hdr.nheaders with stop | place
    · rw [hplace, refsPlace_error hplace] at hout
      cases hout
    · rw [hplace] at hout
      cases hout

/-! ## References that tile a block -/

theorem Tiled.mem {last : ℕ} {refs : List HrefAt} : ∀ {p : ℕ}, Tiled last p refs →
    ∀ r ∈ refs, p + 5 ≤ r.name ∧ r.val = r.name + r.nlen + 4 ∧ r.val + r.vlen ≤ last ∧
      r.role ≤ hroleMax := by
  induction refs with
  | nil => exact fun _ r hr => absurd hr List.not_mem_nil
  | cons s refs ih =>
    intro p h r hr
    obtain ⟨hname, hval, hrole, hrest⟩ := h
    rcases List.mem_cons.1 hr with rfl | hr
    · have hend : ∀ {q : ℕ} {rs : List HrefAt}, Tiled last q rs → q ≤ last := by
        intro q rs
        induction rs generalizing q with
        | nil => exact id
        | cons t rs ihs =>
          intro ht
          have hle := ihs ht.2.2.2
          obtain ⟨htname, htval, -⟩ := ht
          omega
      exact ⟨hname.ge, hval, hend hrest, hrole⟩
    · obtain ⟨hlow, hfacts⟩ := ih hrest r hr
      exact ⟨by omega, hfacts⟩

/-- Two references have no byte in common. -/
theorem Tiled.disjoint {last : ℕ} {refs : List HrefAt} : ∀ {p : ℕ}, Tiled last p refs →
    refs.Pairwise fun r s => r.val + r.vlen + 5 ≤ s.name := by
  induction refs with
  | nil => exact fun _ => List.Pairwise.nil
  | cons r refs ih =>
    intro p h
    obtain ⟨-, -, -, hrest⟩ := h
    exact List.pairwise_cons.2 ⟨fun s hs => (hrest.mem s hs).1, ih hrest⟩

/-! ## The vetted bit -/

section Reread

variable {blob blob' : Bytes} (hread : ∀ p, 8 ≤ p → blob'[p]? = blob[p]?)

include hread

theorem readByte_congr {p : ℕ} (hp : 8 ≤ p) : readByte blob' p = readByte blob p := by
  rw [readByte, hread p hp, readByte]

theorem readU32_congr {p : ℕ} (hp : 8 ≤ p) : readU32 blob' p = readU32 blob p := by
  simp (disch := omega) only [readU32, readByte_congr hread]

theorem nextHeader_congr {p : ℕ} (hp : 8 ≤ p) (last : ℕ) :
    nextHeader blob' p last = nextHeader blob p last := by
  simp (disch := omega) only [nextHeader, readByte_congr hread, readU32_congr hread]

/-- A walk behind the flags does not see them. -/
theorem walk_congr {last : ℕ} (hlast : last ≤ blob.length) (hlen : blob.length < 2 ^ 64) (n : ℕ)
    {p : ℕ} (hp : 8 ≤ p) (hle : p ≤ last) : walk blob' last n p = walk blob last n p := by
  induction n generalizing p with
  | zero => rw [walk, walk]
  | succ n ih =>
    have hsame := nextHeader_congr hread hp last
    obtain ⟨hdone, -⟩ | ⟨r, hone, hname, hval, -, hend, -⟩ := nextHeader_spec hlast hlen hle
    · rw [walk_of_done hdone, walk_of_done (hsame.trans hdone)]
    · rw [walk_of_header hone, walk_of_header (hsame.trans hone), ih (by omega) hend]

end Reread

/-- A result without the vetted bit. -/
def Parsed.clearVetted (p : Parsed) : Parsed :=
  { p with hdr := { p.hdr with flags := Blob.clearVetted p.hdr.flags } }

/-- **Clearing the vetted bit changes the flags and nothing else**, in every form of the call. -/
theorem validate_clearVetted (now : Time) {blob : Bytes} (hlen : blob.length < 2 ^ 64)
    (form : RefsForm) : validate now (blobClearVetted blob) form =
      (validate now blob form).map Parsed.clearVetted := by
  by_cases hwire : blob.length < blobHdrWire
  · have hsame : blobClearVetted blob = blob := if_pos hwire
    have hrefused : validate now blob form = .error .refused := if_pos hwire
    rw [hsame, hrefused]
    rfl
  · have hlength := blobClearVetted_length hwire
    rw [validate_eq now (hlength ▸ hlen), validate_eq now hlen, blobHdrRefused_clearVetted hwire]
    cases hrefused : blobHdrRefused now blob with
    | true => rfl
    | false =>
      have hread : ∀ p, 8 ≤ p → (blobClearVetted blob)[p]? = blob[p]? := by
        intro p hp
        obtain ⟨k, rfl⟩ := Nat.exists_eq_add_of_le hp
        rw [← List.getElem?_drop, ← List.getElem?_drop, blobClearVetted_drop hwire (le_refl 8)]
      have hinside := (hdrSound_of_not_refused hrefused).inside
      have hwalk := walk_congr hread (by omega) hlen (blobHdrRead blob).nheaders
        (show 8 ≤ blobHdrWire by decide)
        (Nat.le_add_right blobHdrWire (blobHdrRead blob).headersLen)
      simp only [Bool.false_eq_true, if_false, validateWalk, blobHdrRead_clearVetted hwire, hwalk]
      cases refsPlace form (blobHdrRead blob).nheaders with
      | error stop => rfl
      | ok place =>
        cases walk blob (blobHdrWire + (blobHdrRead blob).headersLen) (blobHdrRead blob).nheaders
            blobHdrWire with
        | error stop => rfl
        | ok refs => rfl

end Walk
end Blob
end CacheTurbo
