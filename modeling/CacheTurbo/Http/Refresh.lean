/-
# The key of a refresh

A stale entry that is served starts a background subrequest, and the response of
that subrequest is stored under a key of its own: `header_filter_do_capture`
builds the base key again, from the request that `warm_rebuild_headers` left, and
`body_filter_store_tail` adds the axes of the response and the generation of a
context that never looked a marker up.

`refresh_rebuilds_iff` says when that key is the one the stale entry was served
from.
-/

import CacheTurbo.Http.FreshenSpec
import CacheTurbo.Http.PurgeKey
import CacheTurbo.Http.StoreTail

namespace CacheTurbo
namespace Http

open Bytes Blob
open Shm (Zone Rbtree BlobId view)

/-! ## The two keys -/

/-- The key that `body_filter_store_tail` stores the response of a refresh under, for the
axis bits `varyBits` of that response.  The context of `warm_one` is a new one, and the
access phase, which would have read a generation into it, declines a subrequest. -/
def refreshKey (digest : Bytes → KeyHash) (conf : CaptureConf) (now : Time) (r : Request)
    (snap : Bytes) (varyBits : ℕ) : KeyHash :=
  let sr := warmOne now r snap
  let cacheKey := buildKey conf.key sr
  storeKey digest conf.autoVary sr cacheKey (digest cacheKey) varyBits 0

/-- A refresh rebuilds the entry under `served`: its response is stored under that key, so
that every store of it that succeeds with a lifetime leaves the entry fresh. -/
def Rebuilds (rb : Rbtree) (served stored : KeyHash) : Prop :=
  stored = served ∧
    ∀ (held : List BlobId) (z : Zone), Shm.Wf held [] [] [] [] z →
      ∀ (hash : UInt32) (now : Time) (status : ℕ) (blob : Bytes) (w : Windows) (wanted : Bool)
        (z' : Zone) (pin : Option BlobId),
        bodyFilterStore rb z stored hash now status blob w wanted = (z', .ok, pin) → 0 < w.ttl →
          ∃ core, view z' served = some core ∧ now < core.freshUntil

/-- A successful store leaves its key fresh, so the keys decide. -/
theorem rebuilds_iff (rb : Rbtree) (served stored : KeyHash) :
    Rebuilds rb served stored ↔ stored = served := by
  constructor
  · exact fun h => h.1
  · rintro rfl
    refine ⟨rfl, fun held z hwf hash now status blob w wanted z' pin hstore httl => ?_⟩
    obtain ⟨-, -, heffect⟩ := bodyFilterStore_spec rb hwf stored hash now status blob w wanted
    rw [hstore] at heffect
    rcases heffect with ⟨hrc, -, -⟩ | ⟨-, b, -, -, hview⟩
    · exact absurd rfl hrc
    · exact ⟨_, hview, Int.lt_add_of_pos_right now httl⟩

/-! ## What the subrequest keeps of the axes -/

/-- A validator has one of two names. -/
theorem snapValidator_name {now : Time} {snap : Bytes} {nv : Bytes × Bytes}
    (h : snapValidator now snap = some nv) :
    nv.1 = ifNoneMatchName ∨ nv.1 = ifModifiedSinceName := by
  unfold snapValidator at h
  obtain ⟨v, -, hv⟩ := Option.bind_eq_some_iff.1 h
  unfold validatorOf at hv
  split at hv
  · exact Or.inl (congrArg Prod.fst (Option.some.inj hv)).symm
  · exact Or.inr (congrArg Prod.fst (Option.some.inj hv)).symm
  · cases hv

/-- Headers other than the cookies and the validators read the same in the subrequest. -/
theorem reqHeader_warmOne (now : Time) (r : Request) (snap : Bytes) {name : Bytes}
    (hcookie : eqFold name cookieName = false) (hnone : eqFold name ifNoneMatchName = false)
    (hsince : eqFold name ifModifiedSinceName = false) :
    reqHeader (warmOne now r snap) name = reqHeader r name := by
  have hkept : (r.headersIn.headers.filter fun line => !line.named cookieName).find?
      (fun h => h.hash != 0 && h.named name) =
        r.headersIn.headers.find? fun h => h.hash != 0 && h.named name := by
    rw [List.find?_filter]
    congr 1
    funext h
    by_cases hname : h.named name
    · rw [named_of_ne hcookie hname, hname, Bool.and_true, Bool.not_false]
      simp only [true_and, Bool.decide_eq_true]
    · rw [Bool.eq_false_iff.2 hname, Bool.and_false]
      simp only [Bool.false_eq_true, and_false, decide_false]
  have hadded : ((snapValidator now snap).map fun nv => (⟨1, nv.1, nv.2⟩ : Header)).toList.find?
      (fun h => h.hash != 0 && h.named name) = none := by
    rw [List.find?_eq_none]
    intro h hmem hlive
    have hname : h.named name := (Bool.and_eq_true _ _ ▸ hlive).2
    obtain ⟨nv, hnv, rfl⟩ := Option.map_eq_some_iff.1 (Option.mem_toList.1 hmem)
    have hself : (⟨1, nv.1, nv.2⟩ : Header).named nv.1 = true := by
      rw [Header.named, beq_self_eq_true, Bool.true_and, eqFold, beq_self_eq_true]
    rcases snapValidator_name hnv with he | he
    · rw [he, named_of_ne hnone (he ▸ hname)] at hself
      cases hself
    · rw [he, named_of_ne hsince (he ▸ hname)] at hself
      cases hself
  rw [reqHeader, reqHeader, warmOne_headers, List.find?_append, hkept, hadded, Option.or_none]

/-- The typed fields that the classes read are those of the client. -/
theorem warmOne_fields (now : Time) (r : Request) (snap : Bytes) :
    (warmOne now r snap).headersIn.acceptEncoding = r.headersIn.acceptEncoding ∧
      (warmOne now r snap).headersIn.userAgent = r.headersIn.userAgent := by
  have hfields := warmInjectValidators_fields now snap (warmRebuildHeaders r.headersIn)
  have hencoding := congrArg HeadersIn.acceptEncoding hfields
  have hagent := congrArg HeadersIn.userAgent hfields
  exact ⟨hencoding, hagent⟩

/-- **The subrequest is in the classes of the client** on every axis. -/
theorem axes_warmOne (now : Time) (r : Request) (snap : Bytes) (bits : ℕ) :
    axes (warmOne now r snap) bits = axes r bits := by
  obtain ⟨hencoding, hagent⟩ := warmOne_fields now r snap
  have hae : aeClass (warmOne now r snap) = aeClass r := by
    unfold aeClass
    rw [hencoding]
  have hdev : deviceClass (warmOne now r snap) = deviceClass r := by
    unfold deviceClass
    rw [hagent]
  have hlang : langClass (warmOne now r snap) = langClass r := by
    unfold langClass
    rw [reqHeader_warmOne now r snap (by decide) (by decide) (by decide)]
  have horg : originClass (warmOne now r snap) = originClass r :=
    reqHeader_warmOne now r snap (by decide) (by decide) (by decide)
  rw [axes, axes, hae, hdev, hlang, horg]

/-- No cookie is left. -/
theorem cookieIndexLookup_warmOne (now : Time) (r : Request) (snap name : Bytes) :
    cookieIndexLookup (warmOne now r snap) name = none := by
  have hfield := congrArg HeadersIn.cookie
    (warmInjectValidators_fields now snap (warmRebuildHeaders r.headersIn))
  have hcookie : (warmOne now r snap).headersIn.cookie = [] := hfield
  rw [cookieIndexLookup, cookieIndex, hcookie]
  rfl

/-- The base key of a refresh is the operator's expression, without any key cookie. -/
theorem buildKey_warmOne (conf : KeyConf) (now : Time) (r : Request) (snap : Bytes) :
    buildKey conf (warmOne now r snap) = keyExpression conf (warmOne now r snap) := by
  have hnil := (foldedCookies_eq_nil_iff conf (warmOne now r snap)).2
    fun name _ => cookieIndexLookup_warmOne now r snap name
  rw [buildKey, keyFoldAll]
  exact (congrArg _ hnil).trans (List.append_nil _)

/-! ## When the keys agree -/

/-- The base key of the subrequest is that of the client: the client carries no key cookie
and the key expression has one value for both, or the expression gives the subrequest what
it gives the client, followed by the very bytes that the key cookies add. -/
def KeepsBase (conf : KeyConf) (now : Time) (r : Request) (snap : Bytes) : Prop :=
  (∀ name ∈ conf.autoKeyCookies ++ conf.keyCookies, cookieIndexLookup r name = none) ∧
      keyExpression conf (warmOne now r snap) = keyExpression conf r ∨
    foldedCookies conf r ≠ [] ∧
      keyExpression conf (warmOne now r snap) = keyExpression conf r ++ foldedCookies conf r

theorem keepsBase_iff (conf : KeyConf) (now : Time) (r : Request) (snap : Bytes) :
    buildKey conf (warmOne now r snap) = buildKey conf r ↔ KeepsBase conf now r snap := by
  have hclient : buildKey conf r = keyExpression conf r ++ foldedCookies conf r := rfl
  rw [buildKey_warmOne, hclient, KeepsBase, ← foldedCookies_eq_nil_iff]
  exact eq_append_iff

/-- A field without the delimiter can be read off the end. -/
theorem append_us_inj {u v x y : Bytes} (hx : us ∉ x) (hy : us ∉ y)
    (h : u ++ us :: x = v ++ us :: y) : u = v ∧ x = y := by
  have hrev := congrArg List.reverse h
  simp only [List.reverse_append, List.reverse_cons, List.append_assoc] at hrev
  obtain ⟨hxy, huv⟩ := append_sep_inj (fun hm => hx (List.mem_reverse.1 hm))
    (fun hm => hy (List.mem_reverse.1 hm)) (Or.inr ⟨_, rfl⟩) (Or.inr ⟨_, rfl⟩) hrev
  exact ⟨List.reverse_injective (List.cons_eq_cons.1 huv).2, List.reverse_injective hxy⟩

/-- **Two resolutions in one class and with one set of bits** have one key material exactly
for one base key and, where there are bits, one generation modulo 256. -/
theorem resolvedSource_material_iff {r sr : Request} {bits : ℕ}
    (haxes : axes sr bits = axes r bits) (base base' : Bytes) (gen gen' : ℕ) :
    (resolvedSource sr base' bits gen').material = (resolvedSource r base bits gen).material ↔
      base' = base ∧ (bits = 0 ∨ gen' % 256 = gen % 256) := by
  by_cases hbits : bits > 0
  · have hne : ¬ bits = 0 := Nat.pos_iff_ne_zero.1 hbits
    unfold resolvedSource resolvedKind
    rw [if_pos hbits, if_pos hbits]
    simp only [keySource, KeySource.material, KeySource.base, KeySource.suffix, haxes, hne,
      false_or]
    constructor
    · intro h
      rw [← List.append_assoc, ← List.append_assoc] at h
      have hplain : ∀ n : ℕ, us ∉ lit ['g', 'e', 'n', '='] ++ decimal n := by
        intro n hm
        rcases List.mem_append.1 hm with hm | hm
        · exact absurd hm (by decide)
        · exact not_mem_decimal (by decide) n hm
      obtain ⟨hbase, hgen⟩ := append_us_inj (hplain _) (hplain _) (List.append_cancel_right h)
      exact ⟨hbase, decimal_inj (List.append_cancel_left hgen)⟩
    · rintro ⟨rfl, hgen⟩
      rw [hgen]
  · obtain rfl : bits = 0 := Nat.eq_zero_of_not_pos hbits
    have hmaterial : ∀ (q : Request) (b : Bytes) (g : ℕ),
        (resolvedSource q b 0 g).material = b := fun q b g => List.append_nil b
    rw [hmaterial, hmaterial]
    exact ⟨fun h => ⟨h, Or.inl rfl⟩, fun h => h.1⟩

/-- The source of the key of a refresh: its own request with the bits of the response and
generation zero. -/
def refreshSource (conf : CaptureConf) (now : Time) (r : Request) (snap : Bytes) (varyBits : ℕ) :
    KeySource :=
  let sr := warmOne now r snap
  resolvedSource sr (buildKey conf.key sr) (if conf.autoVary then varyBits else 0) 0

theorem refreshKey_eq (digest : Bytes → KeyHash) (conf : CaptureConf) (now : Time) (r : Request)
    (snap : Bytes) (varyBits : ℕ) :
    refreshKey digest conf now r snap varyBits =
      digest (refreshSource conf now r snap varyBits).material := by
  rw [refreshSource, ← resolvedKey_eq digest, refreshKey, storeKey, resolvedKey]
  by_cases hauto : conf.autoVary
  · simp only [hauto, true_and, if_true]
  · simp only [hauto, Bool.false_eq_true, false_and, if_false, gt_iff_lt, lt_irrefl]

/-- Without auto-Vary a lookup resolves no bits. -/
theorem lookupResolution_off (digest : Bytes → KeyHash) (crc : KeyHash → UInt32) (z : Zone)
    (r : Request) (base : Bytes) (now : Time) (policy : MarkerPolicy) :
    lookupResolution digest crc false z r base now policy = (0, 0) := by
  unfold lookupResolution zoneResolution
  rw [if_neg fun h => Bool.false_ne_true h.1]
  rfl

/-- **When a refresh rebuilds the entry that was served.**  For every configuration, zone and
request, a response of the same axis bits, and a digest without a collision on the two keys at
hand: the response is stored under the key of the stale entry exactly when the client's base
key is kept and the entry has no axes or the generation zero. -/
theorem refresh_rebuilds_iff (digest : Bytes → KeyHash) (crc : KeyHash → UInt32) (rb : Rbtree)
    (conf : CaptureConf) (z : Zone) (served now : Time) (r : Request) (policy : MarkerPolicy)
    (snap : Bytes) (varyBits : ℕ)
    (hvary : conf.autoVary → varyBits =
      (lookupResolution digest crc conf.autoVary z r (buildKey conf.key r) served policy).1)
    (hinj : Set.InjOn digest {(servedSource digest crc conf z served r policy).material,
      (refreshSource conf now r snap varyBits).material}) :
    let base := buildKey conf.key r
    let res := lookupResolution digest crc conf.autoVary z r base served policy
    Rebuilds rb (accessL1Key digest crc conf.autoVary z r base served policy).keyHash
        (refreshKey digest conf now r snap varyBits) ↔
      KeepsBase conf.key now r snap ∧ (res.1 = 0 ∨ res.2 % 256 = 0) := by
  intro base res
  have hbits : (if conf.autoVary then varyBits else 0) = res.1 := by
    cases hauto : conf.autoVary with
    | true => rw [if_pos rfl, hvary hauto]
    | false =>
      have hoff : res = (0, 0) := by
        simp only [res, hauto]
        exact lookupResolution_off digest crc z r base served policy
      rw [hoff, if_neg Bool.false_ne_true]
  have hdigest : digest (refreshSource conf now r snap varyBits).material =
      digest (servedSource digest crc conf z served r policy).material ↔
        (refreshSource conf now r snap varyBits).material =
          (servedSource digest crc conf z served r policy).material :=
    ⟨fun h => hinj (Set.mem_insert_of_mem _ rfl) (Set.mem_insert _ _) h, congrArg digest⟩
  have hserved : (accessL1Key digest crc conf.autoVary z r base served policy).keyHash =
      digest (servedSource digest crc conf z served r policy).material := by
    rw [accessL1Key_keyHash, resolvedKey_eq]
    rfl
  have hmaterial := resolvedSource_material_iff (axes_warmOne now r snap res.1) base
    (buildKey conf.key (warmOne now r snap)) res.2 0
  rw [rebuilds_iff, hserved, refreshKey_eq, hdigest, ← keepsBase_iff, refreshSource, hbits]
  refine hmaterial.trans (and_congr_right fun _ => or_congr_right ?_)
  rw [Nat.zero_mod]
  exact eq_comm

/-! ## A refresh after a purge -/

/-- The body under a key that is stale at `now`, but still served. -/
def staleAt (z : Zone) (keyHash : KeyHash) (now : Time) : Option Bytes :=
  match view z keyHash with
  | none => none
  | some core =>
      if core.freshUntil ≤ now ∧ (core.staleUntil = 0 ∨ now < core.staleUntil) then
        core.data.map fun b => (z.blob b).body
      else none

/-- `plainConf` with auto-Vary. -/
def varyConf : CaptureConf := { plainConf with autoVary := true }

/-- A digest that adds the bytes up. -/
def sumDigest (b : Bytes) : KeyHash := Vector.replicate 32 (b.foldl (· + ·) 0)

/-- The base `/` varies on the encoding and was purged `gen` times; its page was stored at
time 1000 after that, fresh for a minute. -/
def variedZone (gen : ℕ) : Zone :=
  let marked := (markerStoreKey Shm.Rbtree.unbalanced
    { taggedZone oldTag with rbtree := .nil, lru := [], nEntries := 0 }
    (markerHash sumDigest [47]) 0 1000 (List.replicate 29 48) varyEncoding gen 60 240).1
  (Shm.store Shm.Rbtree.unbalanced marked
    (variantHash sumDigest (bareRequest [47]) [47] varyEncoding gen) 0 1000 (taggedPage oldTag)
    60 240 false).1

theorem refresh_rebuilds_iff_unpurged :
    let base := buildKey varyConf.key (bareRequest [47])
    let res := lookupResolution sumDigest (fun _ => 0) varyConf.autoVary (variedZone 0)
      (bareRequest [47]) base 1100 ⟨0, false, false, 0, 0⟩
    Rebuilds Shm.Rbtree.unbalanced
        (accessL1Key sumDigest (fun _ => 0) varyConf.autoVary (variedZone 0) (bareRequest [47])
          base 1100 ⟨0, false, false, 0, 0⟩).keyHash
        (refreshKey sumDigest varyConf 1100 (bareRequest [47]) (taggedPage oldTag) varyEncoding) ↔
      KeepsBase varyConf.key 1100 (bareRequest [47]) (taggedPage oldTag) ∧
        (res.1 = 0 ∨ res.2 % 256 = 0) :=
  refresh_rebuilds_iff sumDigest (fun _ => 0) Shm.Rbtree.unbalanced varyConf (variedZone 0)
    1100 1100 (bareRequest [47]) ⟨0, false, false, 0, 0⟩ (taggedPage oldTag) varyEncoding
    (fun _ => by decide +kernel) (Set.injOn_pair.2 fun _ => by decide +kernel)

/-- **After a PURGE a refresh does not rebuild the entry it was launched for.**  The variant
of generation one is served stale, and the response is stored under generation zero. -/
theorem refresh_rebuilds_fails :
    ¬ ∀ (digest : Bytes → KeyHash) (crc : KeyHash → UInt32) (rb : Rbtree) (conf : CaptureConf)
      (z : Zone) (served now : Time) (r : Request) (policy : MarkerPolicy) (snap : Bytes)
      (varyBits : ℕ),
      let base := buildKey conf.key r
      let key := (accessL1Key digest crc conf.autoVary z r base served policy).keyHash
      staleAt z key served = some snap →
      (conf.autoVary → varyBits =
        (lookupResolution digest crc conf.autoVary z r base served policy).1) →
      Set.InjOn digest {(servedSource digest crc conf z served r policy).material,
        (refreshSource conf now r snap varyBits).material} →
      Rebuilds rb key (refreshKey digest conf now r snap varyBits) := by
  intro h
  have hrebuilds := h sumDigest (fun _ => 0) Shm.Rbtree.unbalanced varyConf (variedZone 1)
    1100 1100 (bareRequest [47]) ⟨0, false, false, 0, 0⟩ (taggedPage oldTag) varyEncoding
    (by decide +kernel) (fun _ => by decide +kernel)
    (Set.injOn_pair.2 fun heq => absurd heq (by decide +kernel))
  exact absurd hrebuilds.1 (by decide +kernel)

end Http
end CacheTurbo
