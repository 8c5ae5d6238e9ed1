/-
# The auto-Vary marker

A base whose responses vary has a marker: a small blob under its own key whose
two body bytes are the axis bits and the purge generation
(`ngx_http_cache_turbo_marker_store_key`).  A lookup reads it and goes on under
the variant key (`ngx_http_cache_turbo_vary_apply`).
-/

import CacheTurbo.Http.KeySpec
import CacheTurbo.Blob.Codec
import CacheTurbo.Shm.StoreSpec

namespace CacheTurbo
namespace Http

open Bytes Blob
open Shm (Zone Rbtree lookup getU32 getU64 timeOfU64)

/-! ## The key of a resolution -/

/-- The kind of the key that axis bits and a generation resolve to: no bits, no variant. -/
def resolvedKind (bits gen : ℕ) : KeyKind := if bits > 0 then .variant bits gen else .object

/-- `ctx->key_hash` after a resolution. -/
def resolvedKey (digest : Bytes → KeyHash) (r : Request) (base : Bytes) (bits gen : ℕ) : KeyHash :=
  if bits > 0 then variantHash digest r base bits gen else digest base

/-- The source of the key of a resolution. -/
def resolvedSource (r : Request) (base : Bytes) (bits gen : ℕ) : KeySource :=
  keySource r base (resolvedKind bits gen)

theorem resolvedSource_isSlot (r : Request) (base : Bytes) (bits gen : ℕ) :
    (resolvedSource r base bits gen).IsSlot := by
  unfold resolvedSource resolvedKind
  split_ifs
  · trivial
  · trivial

/-- A resolved key is the digest of its material. -/
theorem resolvedKey_eq (digest : Bytes → KeyHash) (r : Request) (base : Bytes) (bits gen : ℕ) :
    resolvedKey digest r base bits gen = digest (resolvedSource r base bits gen).material := by
  unfold resolvedKey resolvedSource resolvedKind
  split_ifs
  · rw [variantHash, variantSuffix_eq r base]
    rfl
  · rw [keySource, KeySource.material, KeySource.base, KeySource.suffix, List.append_nil]

/-- One source gives the key of the other: the two are the same, or spliced. -/
def SameSlot (k k' : KeySource) : Prop := k = k' ∨ k.Spliced k' ∨ k'.Spliced k

/-- **When two slots have one digest.** -/
theorem digest_material_iff {digest : Bytes → KeyHash} {k k' : KeySource} (hk : k.IsSlot)
    (hk' : k'.IsSlot) (hok : k.Ok) (hok' : k'.Ok)
    (hinj : Set.InjOn digest {k.material, k'.material}) :
    digest k.material = digest k'.material ↔ SameSlot k k' := by
  rw [SameSlot, ← KeySource.material_eq_iff hk hk' hok hok']
  constructor
  · intro h
    exact hinj (Set.mem_insert _ _) (Set.mem_insert_of_mem _ rfl) h
  · intro h
    rw [h]

/-! ## The marker blob -/

/-- The 32-bit field of a window. -/
def ttlField (ttl : Time) : ℕ := if ttl > 0 then ttl.toNat % 2 ^ 32 else 0

/-- The header of a marker blob. -/
def markerHdr (now ttl retainTtl : Time) : BlobHdr :=
  { flags := 0
    status := 200
    nheaders := 0
    headersLen := 0
    bodyLen := 2
    created := now
    freshTtl := ttlField ttl
    staleTtl := ttlField retainTtl
    sieTtl := 0 }

/-- The blob `ngx_http_cache_turbo_marker_store_key` writes; `date` is the rendered time. -/
def markerBlob (now : Time) (date : Bytes) (bits gen : ℕ) (ttl retainTtl : Time) : Bytes :=
  blobHdrWrite (markerHdr now ttl retainTtl) date ++ [(bits % 256).toUInt8, (gen % 256).toUInt8]

/-- `ngx_http_cache_turbo_marker_store_key` on the zone. -/
def markerStoreKey (rb : Rbtree) (z : Zone) (markerKey : KeyHash) (hash : UInt32) (now : Time)
    (date : Bytes) (bits gen : ℕ) (ttl retainTtl : Time) : Zone × Rc :=
  match Shm.storeMarker rb z markerKey hash now (markerBlob now date bits gen ttl retainTtl)
      ttl retainTtl with
  | (z, .ok) => (z, .ok)
  | (z, _) => (z, .error)

/-- What a marker says. -/
structure MarkerRead where
  bits : ℕ
  gen : ℕ
  created : Time
  deriving DecidableEq, Repr

/-- No marker. -/
def MarkerRead.absent : MarkerRead := ⟨0, 0, 0⟩

/-- The bytes of a marker, as `vary_apply` reads them: magic and version are checked,
then the two body bytes are taken. -/
def markerBytes (data : Bytes) : MarkerRead :=
  if getU32 data 0 = blobMagic ∧ getU16 data 4 = blobVersion then
    { bits := (data.getD blobHdrWire 0).toNat
      gen := if data.length ≥ blobHdrWire + 2 then (data.getD (blobHdrWire + 1) 0).toNat else 0
      created := timeOfU64 (getU64 data 24) }
  else .absent

/-- The read of the marker node in `vary_apply`: a live node with a body of at least one
byte. -/
def markerLookup (z : Zone) (markerKey : KeyHash) (now : Time) : MarkerRead :=
  match lookup z markerKey with
  | none => .absent
  | some m =>
      match (z.mem m).data with
      | none => .absent
      | some b =>
          if (z.mem m).len ≥ blobHdrWire + 1 ∧
              ((z.mem m).staleUntil = 0 ∨ now < (z.mem m).staleUntil) then
            markerBytes (z.blob b).body
          else .absent

/-! ## The resolution of a lookup -/

/-- What a resolution leaves in the context of a request. -/
structure VaryResolve where
  keyHash : KeyHash
  varyGen : ℕ
  l1Miss : Bool
  revalidate : Bool

/-- What a resolution reads beside the zone: the interval after which a marker is asked
for again in the second level, whether that was done, whether the breaker is consulted and
open, and the marker that the second level answered with (no bits for none). -/
structure MarkerPolicy where
  revalidateAfter : Time
  l2Done : Bool
  breakerOpen : Bool
  l2Bits : ℕ
  l2Gen : ℕ
  deriving DecidableEq, Repr

/-- `ngx_http_cache_turbo_vary_apply`. -/
def varyApply (digest : Bytes → KeyHash) (z : Zone) (r : Request) (base : Bytes) (now : Time)
    (policy : MarkerPolicy) : VaryResolve :=
  let m := markerLookup z (markerHash digest base) now
  let age := max (now - m.created) 0
  { keyHash := resolvedKey digest r base m.bits m.gen
    varyGen := m.gen
    l1Miss := decide (m.bits = 0)
    revalidate := decide (m.bits > 0) && decide (policy.revalidateAfter > 0) && !policy.l2Done &&
      !policy.breakerOpen && decide (age ≥ policy.revalidateAfter) }

/-- The resolution of `ngx_http_cache_turbo_access_l1` in the zone: without auto-Vary the
base key, without any marker in the zone the base key and generation zero. -/
def accessL1Vary (digest : Bytes → KeyHash) (autoVary : Bool) (z : Zone) (r : Request)
    (base : Bytes) (now : Time) (policy : MarkerPolicy) : VaryResolve :=
  if !autoVary then ⟨digest base, 0, false, false⟩
  else if z.markers = 0 then ⟨digest base, 0, true, false⟩
  else varyApply digest z r base now policy

/-- The key that `ngx_http_cache_turbo_access_l1` looks up: the marker of the second level
stands in when the checksum `crc` of the key is still that of the base key. -/
def accessL1Key (digest : Bytes → KeyHash) (crc : KeyHash → UInt32) (autoVary : Bool) (z : Zone)
    (r : Request) (base : Bytes) (now : Time) (policy : MarkerPolicy) : VaryResolve :=
  let v := accessL1Vary digest autoVary z r base now policy
  if autoVary ∧ policy.l2Bits > 0 ∧ crc v.keyHash = crc (digest base) then
    { v with
      keyHash := variantHash digest r base policy.l2Bits policy.l2Gen
      varyGen := policy.l2Gen }
  else v

/-! ## A stored marker reads back -/

theorem markerBlob_length (now : Time) {date : Bytes} (hdate : date.length = blobDateLen)
    (bits gen : ℕ) (ttl retainTtl : Time) :
    (markerBlob now date bits gen ttl retainTtl).length = blobHdrWire + 2 := by
  rw [markerBlob, List.length_append, blobHdrWrite_length _ hdate]
  rfl

/-- **A marker reads back its bits and its generation**, each modulo 256. -/
theorem markerBytes_bits (now : Time) {date : Bytes} (hdate : date.length = blobDateLen)
    (bits gen : ℕ) (ttl retainTtl : Time) :
    (markerBytes (markerBlob now date bits gen ttl retainTtl)).bits = bits % 256 ∧
      (markerBytes (markerBlob now date bits gen ttl retainTtl)).gen = gen % 256 := by
  have hlen := markerBlob_length now hdate bits gen ttl retainTtl
  have hread : ∀ k, (markerBlob now date bits gen ttl retainTtl).getD (blobHdrWire + k) 0 =
      [(bits % 256).toUInt8, (gen % 256).toUInt8].getD k 0 := by
    intro k
    rw [markerBlob, ← blobHdrWrite_length _ hdate, getD_append_add]
  have hbits : ((bits % 256).toUInt8).toNat = bits % 256 := by simp
  have hgen : ((gen % 256).toUInt8).toNat = gen % 256 := by simp
  have h0 := hread 0
  have h1 := hread 1
  rw [Nat.add_zero, List.getD_cons_zero] at h0
  rw [List.getD_cons_succ, List.getD_cons_zero] at h1
  have hmagic := blobHdrWrite_magic (markerHdr now ttl retainTtl) date
    [(bits % 256).toUInt8, (gen % 256).toUInt8]
  rw [markerBytes, markerBlob, if_pos hmagic, ← markerBlob, h0, h1, hlen, if_pos (le_refl _)]
  exact ⟨hbits, hgen⟩

end Http
end CacheTurbo
