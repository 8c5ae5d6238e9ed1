/-
# What a 304 validates

A 304 of the origin is a statement about the validator it was sent.  Three
sources put validators into a request: the client, whose own conditional headers
are passed on as they are, in a direct exchange and in a background refresh, and
`warmInjectValidators`, which adds that of the body the refresh was launched
from.  The header filter sees only the status, and extends whatever entry it
finds under the key it holds.

`freshen_sound_iff` says when that entry is the one that was validated.
-/

import CacheTurbo.Http.Capture

namespace CacheTurbo
namespace Http

open Bytes Blob
open Shm (Zone lookup)

/-! ## Validators -/

/-- What a conditional request asks about. -/
inductive Validator
  | etag (tag : Bytes)
  | lastModified (date : Bytes)
  deriving DecidableEq, Repr

/-- A list of entity tags cut at the commas outside of quotes. -/
def splitTags (quoted : Bool) : Bytes → List Bytes
  | [] => [[]]
  | c :: rest =>
      if c = 44 ∧ quoted = false then [] :: splitTags quoted rest
      else
        match splitTags (if c = 34 then !quoted else quoted) rest with
        | [] => [[c]]
        | tag :: tags => (c :: tag) :: tags

/-- The entity tags of an `If-None-Match` value. -/
def entityTags (value : Bytes) : List Bytes :=
  ((splitTags false value).map trim).filter fun tag => tag != []

/-- The validators an origin may answer to: the entity tags of `If-None-Match`, and
without that field the dates of `If-Modified-Since`. -/
def sentValidators (headers : List Header) : List Validator :=
  if (headers.filter fun h => h.named ifNoneMatchName) = [] then
    (headers.filter fun h => h.named ifModifiedSinceName).map fun h => .lastModified h.value
  else
    (headers.filter fun h => h.named ifNoneMatchName).flatMap fun h =>
      (entityTags h.value).map .etag

/-- The validator in a stored header. -/
def refValidator (h : Href) : Option Validator :=
  if hrefNamed h etagName then some (.etag h.val)
  else if hrefNamed h lastModifiedName then some (.lastModified h.val)
  else none

/-- The validators that a stored body has. -/
def storedValidators (now : Time) (blob : Bytes) : List Validator :=
  match blobValidate now blob with
  | none => []
  | some v => v.refs.filterMap refValidator

/-- The validator the origin answers to: one of those it was sent, and none when it was
sent none. -/
def Answers (sent : List Validator) (answered : Option Validator) : Prop :=
  (∃ v ∈ sent, answered = some v) ∨ sent = [] ∧ answered = none

/-- A line has one name. -/
theorem named_of_ne {name other : Bytes} (hne : eqFold name other = false) {h : Header}
    (hname : h.named name) : h.named other = false := by
  by_contra hboth
  have hfold := (Bool.and_eq_true _ _ ▸ hname).2
  have hfold' := (Bool.and_eq_true _ _ ▸ (Bool.not_eq_false _ ▸ hboth)).2
  have heq : eqFold name other := by
    rw [eqFold, beq_iff_eq] at hfold hfold' ⊢
    exact hfold.symm.trans hfold'
  rw [hne] at heq
  cases heq

/-- Lines of another name make no difference. -/
theorem filter_named_of_ne {name other : Bytes} (hne : eqFold name other = false)
    (headers : List Header) :
    (headers.filter fun h => !h.named other).filter (fun h => h.named name) =
      headers.filter fun h => h.named name := by
  rw [List.filter_filter]
  refine List.filter_congr fun h _ => ?_
  by_cases hname : h.named name
  · rw [hname, named_of_ne hne hname]
    rfl
  · rw [Bool.eq_false_iff.2 hname, Bool.false_and]

/-! ## Exchanges -/

/-- How the origin was reached: in the client's own request, whose lookup had resolved
the axis bits and the generation (0 and 0 when there was no marker or no lookup), or in a
background refresh launched from the pinned body `snap`. -/
inductive Path
  | direct (bits gen : ℕ)
  | refresh (snap : Bytes)

/-- A request of a client and how it went to the origin. -/
structure Exchange where
  client : Request
  path : Path
  keyReady : Bool
  reqNoStore : Bool
  varyNocache : Bool
  minUsesSkip : Bool
  autoSkip : Bool

namespace Exchange

/-- The request whose response the filter sees. -/
def request (now : Time) (ex : Exchange) : Request :=
  match ex.path with
  | .direct _ _ => ex.client
  | .refresh snap => warmOne now ex.client snap

/-- The header line that the cache itself adds. -/
def injected (now : Time) (ex : Exchange) : Option Header :=
  match ex.path with
  | .direct _ _ => none
  | .refresh snap => (snapValidator now snap).map fun nv => ⟨1, nv.1, nv.2⟩

/-- The context of that request; a refresh begins with an empty one. -/
def ctx (digest : Bytes → KeyHash) (conf : CaptureConf) (ex : Exchange) : CaptureCtx :=
  match ex.path with
  | .direct bits gen =>
      { main := true
        warm := false
        keyReady := ex.keyReady
        reqNoStore := ex.reqNoStore
        varyNocache := ex.varyNocache
        minUsesSkip := ex.minUsesSkip
        autoSkip := ex.autoSkip
        keyHash := resolvedKey digest ex.client (buildKey conf.key ex.client) bits gen }
  | .refresh _ =>
      { main := false
        warm := true
        keyReady := false
        reqNoStore := false
        varyNocache := ex.varyNocache
        minUsesSkip := false
        autoSkip := false
        keyHash := Vector.replicate 32 0 }

/-- The source of the key the filter holds. -/
def source (conf : CaptureConf) (now : Time) (ex : Exchange) : KeySource :=
  match ex.path with
  | .direct bits gen => resolvedSource ex.client (buildKey conf.key ex.client) bits gen
  | .refresh snap => .object (buildKey conf.key (warmOne now ex.client snap))

/-- The validators the origin is sent: the client's, and the one that is injected.  The
lines a refresh drops carry none. -/
theorem sentValidators_request (now : Time) (ex : Exchange) :
    sentValidators (ex.request now).headersIn.headers =
      sentValidators (ex.client.headersIn.headers ++ (ex.injected now).toList) := by
  obtain ⟨client, path, k₁, k₂, k₃, k₄, k₅⟩ := ex
  cases path with
  | direct bits gen => simp only [request, injected, Option.toList_none, List.append_nil]
  | refresh snap =>
    simp only [request, injected, warmOne_headers, sentValidators, List.filter_append,
      filter_named_of_ne (show eqFold ifNoneMatchName cookieName = false by decide),
      filter_named_of_ne (show eqFold ifModifiedSinceName cookieName = false by decide)]

theorem source_isSlot (conf : CaptureConf) (now : Time) (ex : Exchange) :
    (ex.source conf now).IsSlot := by
  unfold source
  split
  · exact resolvedSource_isSlot _ _ _ _
  · trivial

theorem source_ok (conf : CaptureConf) (now : Time) (ex : Exchange) :
    (ex.source conf now).Ok := by
  unfold source
  split
  · exact keySource_ok _ _ _
  · trivial

/-- The key the filter holds is the digest of its source. -/
theorem freshenKey_eq (digest : Bytes → KeyHash) (conf : CaptureConf) (now : Time)
    (ex : Exchange) : freshenKey digest conf (ex.request now) (ex.ctx digest conf) =
      digest (ex.source conf now).material := by
  unfold freshenKey request ctx source
  cases ex.path with
  | direct bits gen => exact resolvedKey_eq _ _ _ _ _
  | refresh snap =>
    rw [KeySource.material, KeySource.base, KeySource.suffix, List.append_nil]
    rfl

end Exchange

/-! ## What is extended, and what is served -/

/-- The body of the entry under a key that a freshening would extend. -/
def resident (z : Zone) (keyHash : KeyHash) : Option Bytes :=
  match lookup z keyHash with
  | none => none
  | some ctn =>
      if (z.mem ctn).kind = .entry ∧ (z.mem ctn).len ≠ 0 then
        some (((z.mem ctn).data.map fun b => (z.blob b).body).getD [])
      else none

theorem freshen_ok_iff (z : Zone) (keyHash : KeyHash) (now freshTtl staleTtl : Time) :
    (Shm.freshen z keyHash now freshTtl staleTtl).2 = .ok ↔ (resident z keyHash).isSome := by
  unfold Shm.freshen resident
  cases lookup z keyHash with
  | none => exact iff_of_false nofun nofun
  | some ctn =>
    dsimp only
    by_cases hentry : (z.mem ctn).kind = .entry ∧ (z.mem ctn).len ≠ 0
    · rw [if_pos hentry, if_neg (not_or.2 ⟨not_not.2 hentry.1, hentry.2⟩)]
      exact iff_of_true rfl rfl
    · rw [if_neg hentry, if_pos (by
        rcases not_and_or.1 hentry with h | h
        · exact Or.inl h
        · exact Or.inr (not_not.1 h))]
      exact iff_of_false nofun nofun

/-- The bits and the generation that a lookup resolves in the zone. -/
def zoneResolution (digest : Bytes → KeyHash) (autoVary : Bool) (z : Zone) (base : Bytes)
    (now : Time) : ℕ × ℕ :=
  if !autoVary then (0, 0)
  else if z.markers = 0 then (0, 0)
  else
    let m := markerLookup z (markerHash digest base) now
    (m.bits, m.gen)

/-- The bits and the generation that a lookup resolves. -/
def lookupResolution (digest : Bytes → KeyHash) (crc : KeyHash → UInt32) (autoVary : Bool)
    (z : Zone) (r : Request) (base : Bytes) (now : Time) (policy : MarkerPolicy) : ℕ × ℕ :=
  let res := zoneResolution digest autoVary z base now
  if autoVary ∧ policy.l2Bits > 0 ∧
      crc (resolvedKey digest r base res.1 res.2) = crc (digest base) then
    (policy.l2Bits, policy.l2Gen)
  else res

theorem accessL1Vary_keyHash (digest : Bytes → KeyHash) (autoVary : Bool) (z : Zone) (r : Request)
    (base : Bytes) (now : Time) (policy : MarkerPolicy) :
    (accessL1Vary digest autoVary z r base now policy).keyHash =
      resolvedKey digest r base (zoneResolution digest autoVary z base now).1
        (zoneResolution digest autoVary z base now).2 := by
  unfold accessL1Vary zoneResolution
  split_ifs
  · rfl
  · rfl
  · rfl

theorem accessL1Key_keyHash (digest : Bytes → KeyHash) (crc : KeyHash → UInt32) (autoVary : Bool)
    (z : Zone) (r : Request) (base : Bytes) (now : Time) (policy : MarkerPolicy) :
    (accessL1Key digest crc autoVary z r base now policy).keyHash =
      resolvedKey digest r base (lookupResolution digest crc autoVary z r base now policy).1
        (lookupResolution digest crc autoVary z r base now policy).2 := by
  have hvary := accessL1Vary_keyHash digest autoVary z r base now policy
  unfold accessL1Key lookupResolution
  simp only [hvary]
  split_ifs with hl2
  · exact (if_pos hl2.2.1).symm
  · exact hvary

/-- The source of the key that an identical request is served from. -/
def servedSource (digest : Bytes → KeyHash) (crc : KeyHash → UInt32) (conf : CaptureConf) (z : Zone)
    (now : Time) (r : Request) (policy : MarkerPolicy) : KeySource :=
  let base := buildKey conf.key r
  let res := lookupResolution digest crc conf.autoVary z r base now policy
  resolvedSource r base res.1 res.2

/-- The response is a 304, the filter may handle it and holds a key, and an entry is
resident under that key. -/
def Freshens (digest : Bytes → KeyHash) (conf : CaptureConf) (z : Zone) (now : Time)
    (ex : Exchange) (resp : OriginResponse) : Prop :=
  captureGateCommon conf (ex.request now) (ex.ctx digest conf) ∧
    ((ex.ctx digest conf).keyReady ∨ (ex.ctx digest conf).warm) ∧ conf.shmZone ∧
    resp.status = 304 ∧ (resident z (digest (ex.source conf now).material)).isSome

/-- The filter extends an entry exactly then. -/
theorem headerFilterCapture_ok_iff (digest : Bytes → KeyHash) (conf : CaptureConf) (z : Zone)
    (now : Time) (ex : Exchange) (resp : OriginResponse) :
    (headerFilterCapture digest conf z now (ex.request now) (ex.ctx digest conf) resp).2 = .ok ↔
      Freshens digest conf z now ex resp := by
  have hbranch := captureBranch_freshen_iff conf (ex.request now) (ex.ctx digest conf) resp
  unfold headerFilterCapture Freshens
  by_cases hfreshen : captureBranch conf (ex.request now) (ex.ctx digest conf) resp = .freshen
  · obtain ⟨hgate, hkey, hzone, hstatus⟩ := hbranch.1 hfreshen
    rw [hfreshen]
    dsimp only
    rw [headerFilterFreshen304, freshen_ok_iff, ex.freshenKey_eq]
    exact ⟨fun h => ⟨hgate, hkey, hzone, hstatus, h⟩, fun h => h.2.2.2.2⟩
  · refine iff_of_false ?_ fun h => hfreshen (hbranch.2 ⟨h.1, h.2.1, h.2.2.1, h.2.2.2.1⟩)
    cases h : captureBranch conf (ex.request now) (ex.ctx digest conf) resp with
    | freshen => exact absurd h hfreshen
    | capture => exact nofun
    | refuse => exact nofun
    | pass => exact nofun

/-- An extended entry is the one that was validated and the one that is served: the origin
answered to one of its own validators, and an identical request looks it up. -/
structure FreshenSound (digest : Bytes → KeyHash) (crc : KeyHash → UInt32) (conf : CaptureConf)
    (z : Zone) (now : Time) (ex : Exchange) (policy : MarkerPolicy)
    (answered : Option Validator) : Prop where
  validated : ∃ blob v, resident z (freshenKey digest conf (ex.request now) (ex.ctx digest conf)) =
    some blob ∧ answered = some v ∧ v ∈ storedValidators now blob
  served : freshenKey digest conf (ex.request now) (ex.ctx digest conf) =
    (accessL1Key digest crc conf.autoVary z ex.client (buildKey conf.key ex.client) now
      policy).keyHash

/-- The origin is asked about the resident body and nothing else: it is sent a validator,
and each one it is sent is stored with that body. -/
def AsksForResident (digest : Bytes → KeyHash) (conf : CaptureConf) (z : Zone) (now : Time)
    (ex : Exchange) : Prop :=
  let sent := sentValidators (ex.client.headersIn.headers ++ (ex.injected now).toList)
  let blob := (resident z (digest (ex.source conf now).material)).getD []
  sent ≠ [] ∧ ∀ v ∈ sent, v ∈ storedValidators now blob

/-- Every answer of the origin is about the resident body exactly when it is asked about
nothing else. -/
theorem validated_iff {digest : Bytes → KeyHash} {conf : CaptureConf} {z : Zone} {now : Time}
    {ex : Exchange} {blob : Bytes}
    (hblob : resident z (digest (ex.source conf now).material) = some blob) :
    (∀ answered, Answers (sentValidators (ex.request now).headersIn.headers) answered →
      ∃ v, answered = some v ∧ v ∈ storedValidators now blob) ↔
    AsksForResident digest conf z now ex := by
  rw [ex.sentValidators_request now, AsksForResident, hblob, Option.getD_some]
  generalize sentValidators (ex.client.headersIn.headers ++ (ex.injected now).toList) = sent
  constructor
  · intro h
    constructor
    · intro hnil
      obtain ⟨v, hv, -⟩ := h none (Or.inr ⟨hnil, rfl⟩)
      cases hv
    · intro v hv
      obtain ⟨w, hw, hstored⟩ := h (some v) (Or.inl ⟨v, hv, rfl⟩)
      obtain rfl := Option.some.inj hw
      exact hstored
  · rintro ⟨hne, hall⟩ answered (⟨v, hv, rfl⟩ | ⟨hnil, -⟩)
    · exact ⟨v, rfl, hall v hv⟩
    · exact absurd hnil hne

/-- **When freshening renews only what was validated.**  For every configuration, zone,
exchange and response, and a digest without a collision on the two keys at hand: whatever
validator the origin answers to, the entry that is extended is the one it was about and
the one that is served, exactly when nothing is extended, or the origin is asked about the
resident body alone and the key is that of the marker's resolution. -/
theorem freshen_sound_iff (digest : Bytes → KeyHash) (crc : KeyHash → UInt32) (conf : CaptureConf)
    (z : Zone) (now : Time) (ex : Exchange) (policy : MarkerPolicy) (resp : OriginResponse)
    (hinj : Set.InjOn digest {(ex.source conf now).material,
      (servedSource digest crc conf z now ex.client policy).material}) :
    (∀ answered, Answers (sentValidators (ex.request now).headersIn.headers) answered →
      (headerFilterCapture digest conf z now (ex.request now) (ex.ctx digest conf) resp).2 = .ok →
      FreshenSound digest crc conf z now ex policy answered) ↔
    (Freshens digest conf z now ex resp → AsksForResident digest conf z now ex ∧
      SameSlot (ex.source conf now) (servedSource digest crc conf z now ex.client policy)) := by
  have hserved : freshenKey digest conf (ex.request now) (ex.ctx digest conf) =
      (accessL1Key digest crc conf.autoVary z ex.client (buildKey conf.key ex.client) now
        policy).keyHash ↔
      SameSlot (ex.source conf now) (servedSource digest crc conf z now ex.client policy) := by
    rw [ex.freshenKey_eq, accessL1Key_keyHash, resolvedKey_eq]
    exact digest_material_iff (ex.source_isSlot conf now) (resolvedSource_isSlot _ _ _ _)
      (ex.source_ok conf now) (keySource_ok _ _ _) hinj
  have hanswer : ∃ answered,
      Answers (sentValidators (ex.request now).headersIn.headers) answered := by
    cases hsent : sentValidators (ex.request now).headersIn.headers with
    | nil => exact ⟨none, Or.inr ⟨rfl, rfl⟩⟩
    | cons v rest => exact ⟨some v, Or.inl ⟨v, List.mem_cons_self, rfl⟩⟩
  rw [headerFilterCapture_ok_iff]
  constructor
  · intro h hfreshens
    obtain ⟨blob, hblob⟩ := Option.isSome_iff_exists.1 hfreshens.2.2.2.2
    obtain ⟨answered, hans⟩ := hanswer
    refine ⟨(validated_iff hblob).1 fun answered hans => ?_,
      hserved.1 (h answered hans hfreshens).served⟩
    obtain ⟨blob', v, hblob', hv, hstored⟩ := (h answered hans hfreshens).validated
    rw [ex.freshenKey_eq, hblob] at hblob'
    obtain rfl := Option.some.inj hblob'
    exact ⟨v, hv, hstored⟩
  · intro h answered hans hfreshens
    obtain ⟨hasks, hsame⟩ := h hfreshens
    obtain ⟨blob, hblob⟩ := Option.isSome_iff_exists.1 hfreshens.2.2.2.2
    obtain ⟨v, hv, hstored⟩ := (validated_iff hblob).2 hasks answered hans
    refine ⟨⟨blob, v, ?_, hv, hstored⟩, hserved.2 hsame⟩
    rw [ex.freshenKey_eq, hblob]

/-! ## A client's own validator -/

/-- `"old"` and `"new"`. -/
def oldTag : Bytes := lit ['"', 'o', 'l', 'd', '"']

def newTag : Bytes := lit ['"', 'n', 'e', 'w', '"']

/-- A page with the given entity tag, stored at time 1000 and fresh for a minute. -/
def taggedPage (etag : Bytes) : Bytes :=
  let block := blobHeaderWrite ⟨hroleEtag, etagName, etag⟩
  blobHdrWrite
    { flags := 0, status := 200, nheaders := 1, headersLen := block.length, bodyLen := 1,
      created := 1000, freshTtl := 60, staleTtl := 240, sieTtl := 0 }
    (List.replicate 29 48) ++ block ++ [33]

/-- A zone whose slab always finds room, and which holds that page under the key of
`GET /`. -/
def taggedZone (etag : Bytes) : Zone :=
  (Shm.store Shm.Rbtree.unbalanced
    { rbtree := .nil, lru := [], lruProtected := [], nProtected := 0, nEntries := 0,
      evictions := 0, markers := 0, ownerSeq := 0, breakerState := 0, admission := false,
      admissionRefused := 0, sketch := ⟨none, 0, 0, 0, 0, 0, 0⟩, usedBytes := 0,
      mem := fun _ => ⟨Vector.replicate 32 0, .entry, none, 0, 0, 0, false, 0, 0, 0, 0, 0,
        .segProbation, false, false, false, 0⟩,
      blob := fun _ => ⟨0, 0, false, 0, []⟩, slab := ⟨[], [], [], 0, some, 0⟩, alerts := 0,
      wild := 0 } (lengthDigest [47]) 0 1000 (taggedPage etag) 60 240 false).1

/-- Caching is on, keys are `$uri`, everything else is plain. -/
def plainConf : CaptureConf :=
  { enable := true, shmZone := true, autoVary := false,
    key := { key := some fun r => r.uri, autoKeyCookies := [], keyCookies := [] },
    valid := 60, validStatus := [], honorCc := false, ignoreCc := false, staleMult := 4,
    keepStale := 0, maxSize := 0, vetted := vetted_nil }

/-- A client that holds the version `etag` asks for `GET /`, past the cache. -/
def conditionalGet (etag : Bytes) : Exchange :=
  { client :=
      { method := .get
        uri := [47]
        args := []
        unparsedUri := [47]
        headersIn := HeadersIn.ofLines [] [⟨1, ifNoneMatchName, etag⟩] }
    path := .direct 0 0
    keyReady := true
    reqNoStore := false
    varyNocache := false
    minUsesSkip := false
    autoSkip := false }

/-- A bare 304. -/
def notModified : OriginResponse :=
  { status := 304, upstreamTtl := -1, swr := -1, sie := -1, mustRevalidate := false,
    cacheable := true, requireHdrOk := true, encoded := false, encodedOk := false,
    noStoreOk := true, trailers := false, ambiguousFraming := false }

theorem freshen_sound_iff_own :
    (∀ answered, Answers (sentValidators ((conditionalGet oldTag).request 1100).headersIn.headers)
      answered →
      (headerFilterCapture lengthDigest plainConf (taggedZone oldTag) 1100
        ((conditionalGet oldTag).request 1100) ((conditionalGet oldTag).ctx lengthDigest plainConf)
        notModified).2 = .ok →
      FreshenSound lengthDigest (fun _ => 0) plainConf (taggedZone oldTag) 1100
        (conditionalGet oldTag) ⟨0, false, false, 0, 0⟩ answered) ↔
    (Freshens lengthDigest plainConf (taggedZone oldTag) 1100 (conditionalGet oldTag) notModified →
      AsksForResident lengthDigest plainConf (taggedZone oldTag) 1100 (conditionalGet oldTag) ∧
      SameSlot ((conditionalGet oldTag).source plainConf 1100)
        (servedSource lengthDigest (fun _ => 0) plainConf (taggedZone oldTag) 1100
          (conditionalGet oldTag).client ⟨0, false, false, 0, 0⟩)) :=
  freshen_sound_iff lengthDigest (fun _ => 0) plainConf (taggedZone oldTag) 1100
    (conditionalGet oldTag) ⟨0, false, false, 0, 0⟩ notModified (Set.injOn_pair.2 fun _ => by decide)

/-- **A client's validator for another version freshens the old body.**  The origin's 304
says that the client's `"new"` is current; the entry that is extended holds `"old"`. -/
theorem freshen_sound_fails :
    ¬ ∀ (digest : Bytes → KeyHash) (crc : KeyHash → UInt32) (conf : CaptureConf) (z : Zone)
      (now : Time) (ex : Exchange) (policy : MarkerPolicy) (resp : OriginResponse),
      Set.InjOn digest {(ex.source conf now).material,
        (servedSource digest crc conf z now ex.client policy).material} →
      ∀ answered, Answers (sentValidators (ex.request now).headersIn.headers) answered →
      (headerFilterCapture digest conf z now (ex.request now) (ex.ctx digest conf) resp).2 = .ok →
      FreshenSound digest crc conf z now ex policy answered := by
  intro h
  have hsound := h lengthDigest (fun _ => 0) plainConf (taggedZone oldTag) 1100
    (conditionalGet newTag) ⟨0, false, false, 0, 0⟩ notModified
    (Set.injOn_pair.2 fun _ => by decide) (some (.etag newTag))
    (Or.inl ⟨.etag newTag, by decide, rfl⟩) (by decide +kernel)
  obtain ⟨blob, v, hblob, hv, hstored⟩ := hsound.validated
  have hresident : resident (taggedZone oldTag) (freshenKey lengthDigest plainConf
      ((conditionalGet newTag).request 1100) ((conditionalGet newTag).ctx lengthDigest plainConf)) =
      some (taggedPage oldTag) := by decide +kernel
  have hnot : Validator.etag newTag ∉ storedValidators 1100 (taggedPage oldTag) := by
    decide +kernel
  rw [hresident] at hblob
  obtain rfl := Option.some.inj hblob
  obtain rfl := Option.some.inj hv
  exact hnot hstored

end Http
end CacheTurbo
