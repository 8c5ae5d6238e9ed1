/-
# Storing a captured response

The tail of the body filter: the windows, the blob, the key, and the store in the
zone (`ngx_http_cache_turbo_body_filter_store_tail`, `_blob_write` and
`_store`).  The pool's allocations succeed here; what was captured of the headers
is given as the bytes of the header block.
-/

import CacheTurbo.Http.Capture
import CacheTurbo.Shm.Ops

namespace CacheTurbo
namespace Http

open Bytes Blob
open Shm (Zone Rbtree ZoneOp BlobId getU32)

/-- What the filters have captured of a response when it ends. -/
structure Captured where
  flags : ℕ
  nheaders : ℕ
  block : Bytes
  body : Bytes
  date : Bytes
  deriving DecidableEq, Repr

/-- The header that `ngx_http_cache_turbo_body_filter_blob_write` writes. -/
def captureHdr (now : Time) (status : ℕ) (c : Captured) (w : Windows) : BlobHdr :=
  { flags := c.flags
    status := status
    nheaders := c.nheaders
    headersLen := c.block.length
    bodyLen := c.body.length
    created := now
    freshTtl := if w.ttl > 0 then w.ttl.toNat else 0
    staleTtl := w.staleWindow.toNat
    sieTtl := w.sieWindow.toNat }

/-- `ngx_http_cache_turbo_body_filter_blob_write`. -/
def bodyFilterBlobWrite (now : Time) (status : ℕ) (c : Captured) (w : Windows) : Bytes :=
  blobHdrWrite (captureHdr now status c w) c.date ++ (c.block ++ c.body)

/-- The blob of `body_filter_store_tail`, unless it is too large. -/
def captureBlob (conf : CaptureConf) (now : Time) (status : ℕ) (c : Captured) (w : Windows) :
    Option Bytes :=
  if c.block.length > 0xFFFFFFFF ∨ c.body.length > 0xFFFFFFFF then none
  else if conf.maxSize > 0 ∧ blobHdrWire + c.block.length + c.body.length > conf.maxSize then none
  else some (bodyFilterBlobWrite now status c w)

/-- How long the second level and the marker keep a body with these windows. -/
def Windows.retainTtl (w : Windows) : Time :=
  if w.sieWindow > w.staleWindow then w.sieWindow else w.staleWindow

/-- The operation of `ngx_http_cache_turbo_body_filter_store`: an error does not replace a
body that can still be served. -/
def bodyFilterStore (rb : Rbtree) (z : Zone) (storeKey : KeyHash) (hash : UInt32) (now : Time)
    (status : ℕ) (blob : Bytes) (w : Windows) (wanted : Bool) : Zone × Rc × Option BlobId :=
  if status ≥ 500 then
    Shm.storeIf rb z storeKey hash now blob w.ttl w.staleWindow .absentOrDead wanted
  else Shm.store rb z storeKey hash now blob w.ttl w.staleWindow wanted

/-- `bodyFilterStore` as an operation on the zone. -/
def bodyFilterStoreOp (storeKey : KeyHash) (hash : UInt32) (status : ℕ) (blob : Bytes)
    (w : Windows) (wanted : Bool) : ZoneOp :=
  if status ≥ 500 then .storeIf storeKey hash blob w.ttl w.staleWindow .absentOrDead wanted
  else .store storeKey hash blob w.ttl w.staleWindow wanted

/-- The key that `body_filter_store_tail` stores under. -/
def storeKey (digest : Bytes → KeyHash) (autoVary : Bool) (r : Request) (cacheKey : Bytes)
    (keyHash : KeyHash) (varyBits varyGen : ℕ) : KeyHash :=
  if autoVary ∧ varyBits > 0 then variantHash digest r cacheKey varyBits varyGen else keyHash

/-! ## The windows -/

/-- A multiplier that is not positive is replaced. -/
theorem staleMult_pos (staleMult : ℤ) :
    0 < (if staleMult ≤ 0 then staleMultiplier else staleMult) := by
  split_ifs with h
  · decide
  · exact not_le.1 h

theorem staleTtl_le (freshTtl : Time) (staleMult : ℤ) : staleTtl freshTtl staleMult ≤ ttlMax := by
  have hmult := staleMult_pos staleMult
  unfold staleTtl
  dsimp only
  generalize (if staleMult ≤ 0 then staleMultiplier else staleMult) = mult at hmult ⊢
  split_ifs with h0 hbig
  · decide
  · exact le_refl _
  · exact (Int.le_ediv_iff_mul_le hmult).1 (not_lt.1 hbig)

theorem staleTtl_nonneg (freshTtl : Time) (staleMult : ℤ) : 0 ≤ staleTtl freshTtl staleMult := by
  have hmult := staleMult_pos staleMult
  unfold staleTtl
  dsimp only
  generalize (if staleMult ≤ 0 then staleMultiplier else staleMult) = mult at hmult ⊢
  split_ifs with h0 hbig
  · exact le_refl _
  · decide
  · exact Int.mul_nonneg (not_le.1 h0).le hmult.le

theorem addTtlClamped_le (base delta : Time) : addTtlClamped base delta ≤ ttlMax := by
  unfold addTtlClamped
  dsimp only
  split_ifs with hneg hmax hbig hbig hmax hbig hbig
  all_goals first
    | exact le_refl _
    | exact Int.add_le_of_le_sub_right (not_lt.1 hbig)

theorem addTtlClamped_ge {base : Time} (hbase : base ≤ ttlMax) (delta : Time) :
    base ≤ addTtlClamped base delta := by
  unfold addTtlClamped
  dsimp only
  split_ifs with hneg hmax hbig hbig hmax hbig hbig
  all_goals first
    | exact hbase
    | exact Int.le_add_of_nonneg_right (by decide)
    | exact Int.le_add_of_nonneg_right (not_lt.1 hneg)

/-- A lifetime is capped. -/
theorem honouredTtl_le (conf : CaptureConf) (resp : OriginResponse) (own : Time) :
    honouredTtl conf resp own ≤ ttlMax := by
  unfold honouredTtl
  dsimp only
  split_ifs with _ hbig hbig
  all_goals first
    | exact le_refl _
    | exact not_lt.1 hbig

theorem honouredTtl_nonneg (conf : CaptureConf) (resp : OriginResponse) {own : Time}
    (hown : 0 ≤ own) : 0 ≤ honouredTtl conf resp own := by
  unfold honouredTtl
  dsimp only
  split_ifs with hup hbig hbig
  · decide
  · rw [Bool.and_eq_true, decide_eq_true_eq] at hup
    exact hup.2
  · decide
  · exact hown

/-- Windows that go into the fields of a blob. -/
structure Windows.Fit (w : Windows) : Prop where
  ttl : 0 ≤ w.ttl ∧ w.ttl ≤ ttlMax
  staleWindow : 0 ≤ w.staleWindow ∧ w.staleWindow ≤ ttlMax
  sieWindow : 0 ≤ w.sieWindow ∧ w.sieWindow ≤ ttlMax

/-- **The windows of every response fit.** -/
theorem bodyFilterWindows_fit {conf : CaptureConf} {resp : OriginResponse} {w : Windows}
    (h : bodyFilterWindows conf resp = some w) : w.Fit := by
  unfold bodyFilterWindows at h
  by_cases hneg : statusTtl conf resp.status < 0
  · rw [if_pos hneg] at h
    cases h
  · rw [if_neg hneg] at h
    obtain rfl := Option.some.inj h
    have hle := honouredTtl_le conf resp (statusTtl conf resp.status)
    have hge := honouredTtl_nonneg conf resp (not_lt.1 hneg)
    generalize honouredTtl conf resp (statusTtl conf resp.status) = ttl at hle hge
    have hzero : (0 : ℤ) ≤ 0 ∧ (0 : ℤ) ≤ ttlMax := by decide
    have hstale : 0 ≤ (if ttl > 0 ∧ conf.ignoreCc = false ∧ resp.swr ≥ 0 then
        addTtlClamped ttl resp.swr else staleTtl ttl conf.staleMult) ∧
        (if ttl > 0 ∧ conf.ignoreCc = false ∧ resp.swr ≥ 0 then
        addTtlClamped ttl resp.swr else staleTtl ttl conf.staleMult) ≤ ttlMax := by
      split_ifs
      · exact ⟨hge.trans (addTtlClamped_ge hle _), addTtlClamped_le _ _⟩
      · exact ⟨staleTtl_nonneg _ _, staleTtl_le _ _⟩
    have hkept : conf.keepStale > 0 →
        0 ≤ (if ttl + conf.keepStale > ttlMax then ttlMax else ttl + conf.keepStale) ∧
          (if ttl + conf.keepStale > ttlMax then ttlMax else ttl + conf.keepStale) ≤ ttlMax := by
      intro hkeep
      split_ifs with hbig
      · decide
      · exact ⟨Int.add_nonneg hge hkeep.le, not_lt.1 hbig⟩
    unfold windowsFor
    dsimp only
    generalize (if ttl > 0 ∧ conf.ignoreCc = false ∧ resp.swr ≥ 0 then
      addTtlClamped ttl resp.swr else staleTtl ttl conf.staleMult) = staleWindow at hstale ⊢
    generalize (if ttl + conf.keepStale > ttlMax then ttlMax else ttl + conf.keepStale) = kept
      at hkept ⊢
    split_ifs with hmust hcc hsie hkeep hkeep
    · exact ⟨⟨hge, hle⟩, ⟨hge, hle⟩, hzero⟩
    · exact ⟨⟨hge, hle⟩, hstale, hge.trans (addTtlClamped_ge hle _), addTtlClamped_le _ _⟩
    · exact ⟨⟨hge, hle⟩, hstale, hkept hkeep.2⟩
    · exact ⟨⟨hge, hle⟩, hstale, hzero⟩
    · exact ⟨⟨hge, hle⟩, hstale, hkept hkeep.2.2⟩
    · exact ⟨⟨hge, hle⟩, hstale, hzero⟩

/-- A response that must be revalidated has no life after its lifetime, and none on error;
without a lifetime its stale window is the zero that means no deadline. -/
theorem windowsFor_mustRevalidate {conf : CaptureConf} {resp : OriginResponse}
    (hcc : conf.ignoreCc = false) (hmust : resp.mustRevalidate = true) {ttl : Time}
    (httl : 0 ≤ ttl) : windowsFor conf resp ttl = ⟨ttl, ttl, 0⟩ := by
  unfold windowsFor
  dsimp only
  by_cases hpos : ttl > 0
  · rw [if_pos ⟨hpos, hcc, hmust⟩]
  · obtain rfl : ttl = 0 := le_antisymm (not_lt.1 hpos) httl
    rw [if_neg fun h => hpos h.1, if_neg fun h => hpos h.1, if_neg fun h => hpos h.1,
      if_neg fun h => hpos h.1]
    rfl

/-- A 304's window is its lifetime only where the multiplier is one, or the lifetime is the
cap. -/
theorem staleTtl_eq_self {freshTtl : Time} (hpos : 0 < freshTtl) (hle : freshTtl ≤ ttlMax)
    {staleMult : ℤ} (h : staleMult = 1 ∨ freshTtl = ttlMax) :
    staleTtl freshTtl staleMult = freshTtl := by
  unfold staleTtl
  rw [if_neg (not_le.2 hpos)]
  rcases h with rfl | rfl
  · show (if freshTtl > ttlMax / 1 then ttlMax else freshTtl * 1) = freshTtl
    rw [Int.ediv_one, Int.mul_one, if_neg (not_lt.2 hle)]
  · have hmult := staleMult_pos staleMult
    dsimp only
    generalize (if staleMult ≤ 0 then staleMultiplier else staleMult) = mult at hmult ⊢
    split_ifs with hbig
    · rfl
    · have hmul := (Int.le_ediv_iff_mul_le hmult).1 (not_lt.1 hbig)
      have hge : ttlMax * 1 ≤ ttlMax * mult := Int.mul_le_mul_of_nonneg_left hmult hpos.le
      rw [Int.mul_one] at hge
      exact le_antisymm hmul hge

/-! ## The blob -/

/-- **A stored blob carries its windows.** -/
theorem bodyFilterBlobWrite_windows (now : Time) (status : ℕ) (c : Captured) {w : Windows}
    (hfit : w.Fit) :
    getU32 (bodyFilterBlobWrite now status c w) 32 = w.ttl.toNat ∧
      getU32 (bodyFilterBlobWrite now status c w) 36 = w.staleWindow.toNat ∧
        getU32 (bodyFilterBlobWrite now status c w) 40 = w.sieWindow.toNat := by
  have hword : ∀ {t : ℤ}, 0 ≤ t ∧ t ≤ ttlMax → t.toNat < 2 ^ 32 := by
    intro t ht
    have hmax : t ≤ 4294967295 := ht.2
    omega
  have hfresh : (captureHdr now status c w).freshTtl = w.ttl.toNat := by
    unfold captureHdr
    split_ifs with hpos
    · rfl
    · exact (Int.toNat_eq_zero.2 (not_lt.1 hpos)).symm
  have hread := blobHdrWrite_windows (h := captureHdr now status c w) (hfresh ▸ hword hfit.ttl)
    (hword hfit.staleWindow) (hword hfit.sieWindow) c.date (c.block ++ c.body)
  rw [hfresh] at hread
  exact hread

/-! ## The store -/

theorem exec_bodyFilterStoreOp (rb : Rbtree) (z : Zone) (storeKey : KeyHash) (hash : UInt32)
    (now : Time) (status : ℕ) (blob : Bytes) (w : Windows) (wanted : Bool) :
    Shm.exec rb z now (bodyFilterStoreOp storeKey hash status blob w wanted) =
      ((bodyFilterStore rb z storeKey hash now status blob w wanted).1,
        .stored (bodyFilterStore rb z storeKey hash now status blob w wanted).2.1
          (bodyFilterStore rb z storeKey hash now status blob w wanted).2.2) := by
  unfold bodyFilterStoreOp bodyFilterStore
  split_ifs
  · rfl
  · rfl

/-- **The store of a captured response** is a store, or a conditional one. -/
theorem bodyFilterStore_spec (rb : Rbtree) {held : List BlobId} {z : Zone}
    (h : Shm.Wf held [] [] [] [] z) (storeKey : KeyHash) (hash : UInt32) (now : Time) (status : ℕ)
    (blob : Bytes) (w : Windows) (wanted : Bool) :
    let r := bodyFilterStore rb z storeKey hash now status blob w wanted
    Shm.Wf (r.2.2.toList ++ held) [] [] [] [] r.1 ∧ Shm.Framed storeKey z r.1 ∧
      Shm.StoreEffect z storeKey now blob w.ttl w.staleWindow .entry r.1 r.2.1 r.2.2 := by
  unfold bodyFilterStore
  split_ifs
  · exact h.storeIf rb storeKey hash now blob w.ttl w.staleWindow .absentOrDead wanted
  · exact h.store rb storeKey hash now blob w.ttl w.staleWindow wanted

end Http
end CacheTurbo
