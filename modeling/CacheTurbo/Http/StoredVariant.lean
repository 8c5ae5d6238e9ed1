/-
# Where a stored response is found again

The tail of a store in a location with auto-Vary
(`ngx_http_cache_turbo_body_filter_store_tail`): the response is stored under the key
its `Vary` gives it, or, when it has no axis, under the key its request was resolved
to; in the first case a marker with the axes and the generation is published
(`ngx_http_cache_turbo_body_filter_varidx_store`), and a response whose marker cannot
be written is taken out again.  The axes come from the response's headers
(`ngx_http_cache_turbo_classify_vary`, `_capture_encoded_ok`).

A published marker reads back, so a response with axes is found for as long as its
marker lives.  A response without axes publishes nothing: it is found when the zone's
marker says what the lookup of its own request read.
-/

import CacheTurbo.Http.CaptureBlob
import CacheTurbo.Http.FreshenSpec
import CacheTurbo.Http.MarkerGate

namespace CacheTurbo
namespace Http

open Bytes Blob
open Shm (Zone Rbtree ZoneOp Sketch Tally Wf getU32)

/-! ## The axes of a response -/

/-- What the classification reads of the location configuration. -/
structure VaryConf where
  /-- `cache_turbo_vary_ignore`. -/
  varyIgnore : List Bytes
  /-- The headers that an enabled preset skips on. -/
  autoSkipHeaders : List Bytes
  keyEncodedOrigin : Bool

/-- What the classification reads of `headers_out`: the list, and the live
`Content-Encoding`. -/
structure ResponseHead where
  headers : List Header
  contentEncoding : Option Bytes

/-- A name in any case (`ngx_strncasecmp` on equal lengths). -/
def sameName (a b : Bytes) : Bool := a.length == b.length && eqFold a b

/-- `ngx_http_cache_turbo_response_encoded`. -/
def responseEncoded (resp : ResponseHead) : Bool :=
  match resp.contentEncoding with
  | none => false
  | some ce => ce != [] && !sameName ce (lit ['i', 'd', 'e', 'n', 't', 'i', 't', 'y'])

/-- `ngx_http_cache_turbo_classify_vary_is_vary_header`. -/
def isVaryHeader (h : Header) : Bool := h.hash != 0 && h.named (lit ['V', 'a', 'r', 'y'])

/-- What separates two tokens of a `Vary` line. -/
def isVarySep (c : UInt8) : Bool := c == 32 || c == 9 || c == 44

/-- The tokens that `ngx_http_cache_turbo_classify_vary_next_token` produces. -/
def varyTokens (value : Bytes) : List Bytes := (value.splitOnP isVarySep).filter (· ≠ [])

/-- `ngx_http_cache_turbo_vary_ignore_match`. -/
def varyIgnoreMatch (conf : VaryConf) (tok : Bytes) : Bool :=
  conf.varyIgnore.any fun ignored => sameName ignored tok

/-- `ngx_http_cache_turbo_vary_preset_satisfied`: the first name that matches decides. -/
def varyPresetSatisfied (conf : VaryConf) (r : Request) (tok : Bytes) : Bool :=
  conf.autoSkipHeaders.any (fun name => sameName name tok) &&
    !r.headersIn.headers.any fun h => sameName h.key tok

/-- What is known of the `Vary` so far. -/
structure VaryClass where
  bits : ℕ
  nocache : Bool
  unsafeAxis : Bool
  deriving DecidableEq, Repr

/-- `ngx_http_cache_turbo_classify_vary_classify_token`. -/
def classifyToken (encoded : Bool) (c : VaryClass) (tok : Bytes) : VaryClass :=
  if tok = lit ['*'] then { c with nocache := true }
  else if sameName tok (lit ['C', 'o', 'o', 'k', 'i', 'e']) then { c with nocache := true }
  else if sameName tok (lit ['A', 'u', 't', 'h', 'o', 'r', 'i', 'z', 'a', 't', 'i', 'o', 'n']) then
    { c with nocache := true }
  else if sameName tok (lit ['A', 'c', 'c', 'e', 'p', 't', '-', 'E', 'n', 'c', 'o', 'd', 'i',
      'n', 'g']) then
    -- an identity body is the same for every Accept-Encoding
    if encoded then { c with bits := c.bits ||| varyEncoding } else c
  else if sameName tok (lit ['U', 's', 'e', 'r', '-', 'A', 'g', 'e', 'n', 't']) then
    { c with bits := c.bits ||| varyDevice }
  else if sameName tok (lit ['A', 'c', 'c', 'e', 'p', 't', '-', 'L', 'a', 'n', 'g', 'u', 'a',
      'g', 'e']) then
    { c with bits := c.bits ||| varyLang }
  else if sameName tok (lit ['O', 'r', 'i', 'g', 'i', 'n']) then
    { c with bits := c.bits ||| varyOrigin }
  else { c with nocache := true, unsafeAxis := true }

/-- `ngx_http_cache_turbo_classify_vary`. -/
def classifyVary (conf : VaryConf) (r : Request) (resp : ResponseHead) : VaryClass :=
  let toks := (resp.headers.filter isVaryHeader).flatMap fun h => varyTokens h.value
  let toks := toks.filter fun tok => !varyIgnoreMatch conf tok && !varyPresetSatisfied conf r tok
  let c := toks.foldl (classifyToken (responseEncoded resp)) ⟨0, false, false⟩
  if c.nocache then { c with bits := 0 } else c

/-- `ctx->vary_bits` when the header filter is done: a coded body that may be stored is kept
apart by the coding as well. -/
def responseVaryBits (conf : VaryConf) (r : Request) (resp : ResponseHead) : ℕ :=
  let bits := (classifyVary conf r resp).bits
  if (captureEncodedOk conf.keyEncodedOrigin resp.contentEncoding).isSome then
    bits ||| varyEncoding
  else bits

/-- A set of axes fits in four bits. -/
def axesMax : ℕ := 16

theorem or_lt_axesMax {a b : ℕ} (ha : a < axesMax) (hb : b < axesMax) : a ||| b < axesMax :=
  Nat.or_lt_two_pow (n := 4) ha hb

theorem classifyToken_bits {c : VaryClass} (h : c.bits < axesMax) (encoded : Bool) (tok : Bytes) :
    (classifyToken encoded c tok).bits < axesMax := by
  unfold classifyToken
  split_ifs
  all_goals first
    | exact h
    | exact or_lt_axesMax h (by decide)

/-- **The axes of a response fit in the byte of a marker.** -/
theorem responseVaryBits_lt (conf : VaryConf) (r : Request) (resp : ResponseHead) :
    responseVaryBits conf r resp < axesMax := by
  have hfold : ∀ (toks : List Bytes) (c : VaryClass), c.bits < axesMax →
      (toks.foldl (classifyToken (responseEncoded resp)) c).bits < axesMax := by
    intro toks
    induction toks with
    | nil => exact fun c h => h
    | cons tok toks ih => exact fun c h => ih _ (classifyToken_bits h _ tok)
  have hclass : (classifyVary conf r resp).bits < axesMax := by
    unfold classifyVary
    dsimp only
    split_ifs
    · exact Nat.zero_lt_succ 15
    · exact hfold _ _ (by decide)
  unfold responseVaryBits
  dsimp only
  split_ifs
  · exact or_lt_axesMax hclass (by decide)
  · exact hclass

/-! ## The tail of a store -/

/-- What the request's own lookup resolved to, both from the bytes of a marker; no bits and
generation zero when it found none or looked nothing up. -/
structure Resolution where
  bits : ℕ
  gen : ℕ
  bits_lt : bits < 256
  gen_lt : gen < 256

/-- What the tail reads of the request's context, beside the captured response.  `coldOwner`
is the lease of a cold winner that has stored nothing yet. -/
structure TailCtx where
  own : Resolution
  varyBits : ℕ
  coldOwner : Option ℕ

/-- `ctx->key_hash`. -/
def TailCtx.keyHash (digest : Bytes → KeyHash) (r : Request) (base : Bytes) (ctx : TailCtx) :
    KeyHash :=
  resolvedKey digest r base ctx.own.bits ctx.own.gen

/-- `store_key`, where auto-Vary is on. -/
def TailCtx.storeKey (digest : Bytes → KeyHash) (r : Request) (base : Bytes) (ctx : TailCtx) :
    KeyHash :=
  Http.storeKey digest true r base (ctx.keyHash digest r base) ctx.varyBits ctx.own.gen

/-- How the tail ends. -/
inductive TailEnd
  | stored
  /-- The zone keeps a body that can still be served. -/
  | refused
  /-- There was no room; the marker may be published all the same. -/
  | failed
  /-- The marker could not be written. -/
  | rolledBack
  deriving DecidableEq, Repr

/-- A rendered `Date`. -/
abbrev HttpDate := { date : Bytes // date.length = blobDateLen }

variable (rb : Rbtree) (digest : Bytes → KeyHash) (crc : KeyHash → UInt32)

/-- The lease under the base key goes when the store leaves that key. -/
def tailUnstub (z : Zone) (r : Request) (base : Bytes) (ctx : TailCtx) (now : Time) : Zone :=
  match ctx.coldOwner with
  | some owner =>
      if ctx.storeKey digest r base ≠ ctx.keyHash digest r base then
        Shm.unstub rb z (ctx.keyHash digest r base) owner now
      else z
  | none => z

/-- `ngx_http_cache_turbo_body_filter_rollback_store`, without the release of the pin. -/
def rollbackStore (z : Zone) (storeKey : KeyHash) (storedData : Option Shm.BlobId) : Zone :=
  match storedData with
  | none => z
  | some b => (Shm.purgeIfBlob rb z storeKey b).1

/-- The zone side of `ngx_http_cache_turbo_body_filter_store_tail`, with
`_body_filter_varidx_store`: the store at the time `now`, what others do in between, and the
marker at the time `markerNow`; `indexDropped` tells that the index write was lost. -/
def storeTail (z : Zone) (r : Request) (base : Bytes) (ctx : TailCtx) (now : Time) (status : ℕ)
    (blob : Bytes) (w : Windows) (others : List (Time × ZoneOp)) (markerNow : Time)
    (date : HttpDate) (indexDropped : Bool) : Zone × TailEnd :=
  let key := ctx.storeKey digest r base
  let z := tailUnstub rb digest z r base ctx now
  let s := bodyFilterStore rb z key (crc key) now status blob w (decide (ctx.varyBits > 0))
  let written : TailEnd := if s.2.1 = .ok then .stored else .failed
  if s.2.1 = .declined then (s.1, .refused)
  else if ctx.varyBits > 0 then
    let z := Run.after (Shm.runStep rb) s.1 others
    let m := markerStoreKey rb z (markerHash digest base) (crc (markerHash digest base)) markerNow
      date.1 ctx.varyBits ctx.own.gen w.ttl w.retainTtl
    if m.2 = .ok then
      (if indexDropped then Shm.varidxPendingSet m.1 key true else m.1, written)
    else (rollbackStore rb m.1 key s.2.2, .rolledBack)
  else (s.1, written)

/-- The axes and the generation that a store used. -/
def TailCtx.used (ctx : TailCtx) : ℕ × ℕ :=
  (if ctx.varyBits > 0 then ctx.varyBits else ctx.own.bits, ctx.own.gen)

/-- A request that begins: it has asked the second level for nothing. -/
def freshPolicy (revalidateAfter : Time) (breakerOpen : Bool) : MarkerPolicy :=
  ⟨revalidateAfter, false, breakerOpen, 0, 0⟩

/-- **The next identical request finds the response**: its key is the one the response was
stored under, from the axes and the generation that the store used. -/
structure FoundAgain (z : Zone) (r : Request) (base : Bytes) (ctx : TailCtx) (now : Time)
    (policy : MarkerPolicy) : Prop where
  keyHash : (accessL1Key digest crc true z r base now policy).keyHash = ctx.storeKey digest r base
  varyGen : (accessL1Key digest crc true z r base now policy).varyGen = ctx.own.gen
  used : zoneResolution digest true z base now = ctx.used

/-! ## The lookup that follows -/

/-- The fields of a first lookup, from what the gate and the marker say. -/
theorem accessL1Key_fresh (z : Zone) (r : Request) (base : Bytes) (now : Time)
    (revalidateAfter : Time) (breakerOpen : Bool) :
    let v := accessL1Key digest crc true z r base now (freshPolicy revalidateAfter breakerOpen)
    let res := zoneResolution digest true z base now
    v.keyHash = resolvedKey digest r base res.1 res.2 ∧ v.varyGen = res.2 := by
  have hvary : ∀ policy, (accessL1Vary digest true z r base now policy).varyGen =
      (zoneResolution digest true z base now).2 := by
    intro policy
    unfold accessL1Vary zoneResolution
    split_ifs
    · rfl
    · rfl
    · rfl
  intro v res
  have hv : v = accessL1Vary digest true z r base now (freshPolicy revalidateAfter breakerOpen) := by
    show accessL1Key digest crc true z r base now (freshPolicy revalidateAfter breakerOpen) = _
    unfold accessL1Key
    rw [if_neg fun h => absurd h.2.1 (Nat.lt_irrefl 0)]
  rw [hv]
  exact ⟨accessL1Vary_keyHash .., hvary _⟩

/-- **A first lookup finds the response exactly when it reads what the store used.** -/
theorem foundAgain_iff (z : Zone) (r : Request) (base : Bytes) (ctx : TailCtx) (now : Time)
    (revalidateAfter : Time) (breakerOpen : Bool) :
    FoundAgain digest crc z r base ctx now (freshPolicy revalidateAfter breakerOpen) ↔
      zoneResolution digest true z base now = ctx.used := by
  obtain ⟨hkey, hgen⟩ := accessL1Key_fresh digest crc z r base now revalidateAfter breakerOpen
  constructor
  · exact fun h => h.used
  · intro h
    have hkey' : resolvedKey digest r base ctx.used.1 ctx.used.2 = ctx.storeKey digest r base := by
      unfold TailCtx.used TailCtx.storeKey Http.storeKey
      split_ifs with hbits hboth hboth
      · rw [resolvedKey, if_pos hbits]
      · exact absurd ⟨rfl, hbits⟩ hboth
      · exact absurd hboth.2 hbits
      · rfl
    refine ⟨?_, ?_, h⟩
    · rw [hkey, h, hkey']
    · rw [hgen, h]
      rfl

/-! ## The marker that is published -/

/-- A zone that operations have led to. -/
def Steady (z : Zone) : Prop := ∃ held leak, Wf held [] [] [] [] z ∧ Tally leak z

theorem Steady.exec {z : Zone} (h : Steady z) (now : Time) (op : ZoneOp) :
    Steady (Shm.exec rb z now op).1 := by
  obtain ⟨held, leak, hwf, htally⟩ := h
  obtain ⟨extra, htally', -⟩ := htally.exec rb hwf now op
  exact ⟨_, _, (hwf.exec rb now op).1, htally'⟩

theorem Steady.run {z : Zone} (h : Steady z) (run : List (Time × ZoneOp)) :
    Steady (Run.after (Shm.runStep rb) z run) :=
  Run.after_invariant (fun _ e hz => hz.exec rb e.1 e.2) h run

theorem steady_freshZone (mem : Shm.Addr → Shm.Node) (blob : Shm.BlobId → Shm.Blob)
    (answers : ℕ → Option Shm.Addr) (sketch : Sketch) (admission : Bool) (breakerState : ℕ) :
    Steady (Shm.freshZone mem blob answers sketch admission breakerState) :=
  ⟨[], 0, Shm.Wf.freshZone mem blob answers sketch admission breakerState,
    Shm.Tally.freshZone mem blob answers sketch admission breakerState⟩

/-- A marker is read off the core under its key. -/
theorem markerLookup_eq (z : Zone) (k : KeyHash) (now : Time) :
    markerLookup z k now = match Shm.view z k with
      | none => .absent
      | some c => match c.data with
        | none => .absent
        | some b => if c.len ≥ blobHdrWire + 1 ∧ (c.staleUntil = 0 ∨ now < c.staleUntil) then
            markerBytes (z.blob b).body else .absent := by
  unfold markerLookup Shm.view
  cases Shm.lookup z k with
  | none => rfl
  | some a => rfl

/-- When a marker with this retention ends; zero for never. -/
def markerDeadline (markerNow : Time) (w : Windows) : Time :=
  if w.retainTtl ≠ 0 then markerNow + w.retainTtl else 0

/-- The marker lives at the time `now`. -/
def MarkerLives (markerNow : Time) (w : Windows) (now : Time) : Prop :=
  markerDeadline markerNow w = 0 ∨ now < markerDeadline markerNow w

instance (markerNow : Time) (w : Windows) (now : Time) : Decidable (MarkerLives markerNow w now) :=
  inferInstanceAs (Decidable (_ ∨ _))

/-- **A published marker is read by the next lookup**, while it lives. -/
theorem zoneResolution_markerStoreKey {z : Zone} (h : Steady z) (hash : UInt32) (base : Bytes)
    (markerNow : Time) (date : HttpDate) {bits gen : ℕ} (hbits : bits < 256) (hgen : gen < 256)
    (w : Windows)
    (hok : (markerStoreKey rb z (markerHash digest base) hash markerNow date.1 bits gen w.ttl
      w.retainTtl).2 = .ok) (now : Time) :
    zoneResolution digest true (markerStoreKey rb z (markerHash digest base) hash markerNow date.1
      bits gen w.ttl w.retainTtl).1 base now =
        if MarkerLives markerNow w now then (bits, gen) else (0, 0) := by
  obtain ⟨held, leak, hwf, htally⟩ := h
  set k := markerHash digest base
  set data := markerBlob markerNow date.1 bits gen w.ttl w.retainTtl
  obtain ⟨hwf', -, heffect⟩ := hwf.storeMarker rb k hash markerNow data w.ttl w.retainTtl
  have htally' := htally.storeMarker rb hwf k hash markerNow data w.ttl w.retainTtl
  unfold markerStoreKey at hok ⊢
  cases hstore : Shm.storeMarker rb z k hash markerNow data w.ttl w.retainTtl with
  | mk z' rc =>
    rw [hstore] at hok hwf' heffect htally'
    cases rc with
    | declined | error | again => cases hok
    | ok =>
      obtain ⟨hne, -⟩ | ⟨-, b, -, hbody, hview⟩ := heffect
      · exact absurd rfl hne
      · dsimp only at hbody hview hwf' htally' ⊢
        have hlen : data.length = blobHdrWire + 2 := markerBlob_length markerNow date.2 bits gen ..
        -- the gate is open: the marker itself is resident
        have hgate : z'.markers ≠ 0 := by
          obtain ⟨a, ha, hcore⟩ := Option.map_eq_some_iff.1 hview
          have hkind : (z'.mem a).kind = .marker := congrArg Shm.Core.kind hcore
          have hpos : 0 < z'.residentMarkers := by
            refine List.countP_pos_iff.2 ⟨a, (hwf'.queues.lookup_resident ha).1, ?_⟩
            exact decide_eq_true hkind
          unfold Tally at htally'
          omega
        have hread : markerLookup z' k now =
            if MarkerLives markerNow w now then markerBytes data else .absent := by
          rw [markerLookup_eq, hview]
          unfold Shm.storedCore
          dsimp only
          rw [hbody, hlen]
          by_cases hlives : MarkerLives markerNow w now
          · rw [if_pos ⟨Nat.le_succ _, hlives⟩, if_pos hlives]
          · rw [if_neg fun hboth => hlives hboth.2, if_neg hlives]
        unfold zoneResolution
        rw [if_neg (by decide), if_neg hgate, hread]
        split_ifs with hlives
        · obtain ⟨hb, hg⟩ := markerBytes_bits markerNow date.2 bits gen w.ttl w.retainTtl
          rw [Nat.mod_eq_of_lt hbits] at hb
          rw [Nat.mod_eq_of_lt hgen] at hg
          exact Prod.ext hb hg
        · rfl

/-- The mark of a lost index write does not show in a resolution. -/
theorem zoneResolution_varidxPendingSet {z : Zone} (h : Steady z) (key : KeyHash) (pending : Bool)
    (base : Bytes) (now : Time) :
    zoneResolution digest true (Shm.varidxPendingSet z key pending) base now =
      zoneResolution digest true z base now := by
  obtain ⟨held, leak, hwf, -⟩ := h
  obtain ⟨hwf', hkept, hperm⟩ := hwf.varidxPendingSet key pending
  have hview := hkept.view_eq hperm hwf.queues hwf'.queues
  have hzone : (Shm.varidxPendingSet z key pending).markers = z.markers ∧
      (Shm.varidxPendingSet z key pending).blob = z.blob := by
    unfold Shm.varidxPendingSet
    cases Shm.lookup z key with
    | none => exact ⟨rfl, rfl⟩
    | some a =>
      dsimp only
      split_ifs
      · exact ⟨rfl, rfl⟩
      · exact ⟨rfl, rfl⟩
  unfold zoneResolution
  rw [hzone.1, markerLookup_eq, markerLookup_eq, hview, hzone.2]

/-! ## The main result -/

theorem Steady.tailUnstub {z : Zone} (h : Steady z) (r : Request) (base : Bytes) (ctx : TailCtx)
    (now : Time) : Steady (Http.tailUnstub rb digest z r base ctx now) := by
  unfold Http.tailUnstub
  cases ctx.coldOwner with
  | none => exact h
  | some owner =>
    dsimp only
    split_ifs
    · exact h.exec rb now (.unstub (ctx.keyHash digest r base) owner)
    · exact h

theorem Steady.bodyFilterStore {z : Zone} (h : Steady z) (storeKey : KeyHash) (hash : UInt32)
    (now : Time) (status : ℕ) (blob : Bytes) (w : Windows) (wanted : Bool) :
    Steady (Http.bodyFilterStore rb z storeKey hash now status blob w wanted).1 := by
  have hexec := h.exec rb now (bodyFilterStoreOp storeKey hash status blob w wanted)
  rw [exec_bodyFilterStoreOp] at hexec
  exact hexec

theorem Steady.markerStoreKey {z : Zone} (h : Steady z) (markerKey : KeyHash) (hash : UInt32)
    (now : Time) (date : Bytes) (bits gen : ℕ) (ttl retainTtl : Time) :
    Steady (Http.markerStoreKey rb z markerKey hash now date bits gen ttl retainTtl).1 := by
  have hexec := h.exec rb now
    (.storeMarker markerKey hash (markerBlob now date bits gen ttl retainTtl) ttl retainTtl)
  unfold Http.markerStoreKey
  unfold Shm.exec at hexec
  dsimp only at hexec
  cases hstore : Shm.storeMarker rb z markerKey hash now
      (markerBlob now date bits gen ttl retainTtl) ttl retainTtl with
  | mk z' rc =>
    rw [hstore] at hexec
    cases rc <;> exact hexec

/-- **What a successful tail leaves for the next lookup**: for a response with axes the marker
it published. -/
theorem zoneResolution_storeTail {z : Zone} (h : Steady z) (r : Request) (base : Bytes)
    (ctx : TailCtx) (hbits : ctx.varyBits < axesMax) (now : Time) (status : ℕ) (blob : Bytes)
    (w : Windows) (others : List (Time × ZoneOp)) (markerNow : Time) (date : HttpDate)
    (indexDropped : Bool)
    (hstored : (storeTail rb digest crc z r base ctx now status blob w others markerNow date
      indexDropped).2 = .stored) (hvary : ctx.varyBits > 0) (later : Time) :
    zoneResolution digest true (storeTail rb digest crc z r base ctx now status blob w others
      markerNow date indexDropped).1 base later =
        if MarkerLives markerNow w later then (ctx.varyBits, ctx.own.gen) else (0, 0) := by
  have hbefore := ((h.tailUnstub rb digest r base ctx now).bodyFilterStore rb
    (ctx.storeKey digest r base) (crc (ctx.storeKey digest r base)) now status blob w
    (decide (ctx.varyBits > 0))).run rb others
  have hmarker := hbefore.markerStoreKey rb (markerHash digest base)
    (crc (markerHash digest base)) markerNow date.1 ctx.varyBits ctx.own.gen w.ttl w.retainTtl
  have hpublished := fun hok => zoneResolution_markerStoreKey rb digest hbefore
    (crc (markerHash digest base)) base markerNow date (hbits.trans (by decide)) ctx.own.gen_lt w
    hok later
  unfold storeTail at hstored ⊢
  dsimp only at hstored ⊢
  generalize bodyFilterStore rb (tailUnstub rb digest z r base ctx now)
    (ctx.storeKey digest r base) (crc (ctx.storeKey digest r base)) now status blob w
    (decide (ctx.varyBits > 0)) = s at hstored hmarker hpublished ⊢
  generalize markerStoreKey rb (Run.after (Shm.runStep rb) s.1 others) (markerHash digest base)
    (crc (markerHash digest base)) markerNow date.1 ctx.varyBits ctx.own.gen w.ttl w.retainTtl = m
    at hstored hmarker hpublished ⊢
  by_cases hrefused : s.2.1 = .declined
  · rw [if_pos hrefused] at hstored
    cases hstored
  · rw [if_neg hrefused, if_pos hvary] at hstored ⊢
    by_cases hok : m.2 = .ok
    · rw [if_pos hok]
      cases indexDropped with
      | true => exact (zoneResolution_varidxPendingSet digest hmarker ..).trans (hpublished hok)
      | false => exact hpublished hok
    · rw [if_neg hok] at hstored
      cases hstored

/-- A location keyed by the URI, without lists. -/
def uriKey : KeyConf := { key := some fun r => r.uri, autoKeyCookies := [], keyCookies := [] }

/-- A response with this `Vary`. -/
def varyHead (vary : List Bytes) : ResponseHead :=
  ⟨vary.map fun v => ⟨1, lit ['V', 'a', 'r', 'y'], v⟩, none⟩

/-- Headers rendered at some time. -/
def someDate : HttpDate := ⟨List.replicate blobDateLen 48, by decide⟩

/-- A minute of freshness and four of staleness. -/
def minuteWindows : Windows := ⟨60, 240, 0⟩

/-- A response that varies on the language. -/
def languageHead : ResponseHead :=
  varyHead [lit ['A', 'c', 'c', 'e', 'p', 't', '-', 'L', 'a', 'n', 'g', 'u', 'a', 'g', 'e']]

/-- A lookup that read no marker. -/
def Resolution.unmarked : Resolution := ⟨0, 0, by decide, by decide⟩

/-- Another request has published a marker for languages. -/
def markedRun : List (Time × ZoneOp) :=
  [(990, .storeMarker (markerHash lengthDigest [47]) 0
    (markerBlob 990 someDate.1 varyLang 1 60 240) 60 240)]

end Http
end CacheTurbo
