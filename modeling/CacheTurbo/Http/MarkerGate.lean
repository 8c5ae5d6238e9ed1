/-
# The gate in front of the marker lookup

`ngx_http_cache_turbo_access_l1` skips `vary_apply` while `markers` is zero and sets
the request's fields to what a lookup that finds no marker leaves.  The counter is
exact as long as plain stores stay off the marker keys (`Shm.tally_run_apart`), so
the skipped lookup would have found nothing: at most a counter, which has no body.
-/

import CacheTurbo.Shm.Markers
import CacheTurbo.Http.Marker

namespace CacheTurbo
namespace Http

open Shm (Zone Rbtree Addr BlobId Node Blob Sketch ZoneOp Tally KindsApart Apart Queues lookup view)

/-- In a zone without MARKER nodes the lookup of a marker key reads nothing. -/
theorem markerLookup_absent {M : KeyHash → Prop} {z : Zone} (hq : Queues [] z)
    (htally : Tally 0 z) (hapart : KindsApart M z) (hzero : z.markers = 0) {k : KeyHash}
    (hk : M k) (now : Time) : markerLookup z k now = .absent := by
  have hnone : z.residentMarkers = 0 := by
    unfold Tally at htally
    omega
  unfold markerLookup
  cases hl : lookup z k with
  | none => rfl
  | some a =>
    obtain ⟨ha, -⟩ := hq.lookup_resident hl
    obtain ⟨-, hentry⟩ := hapart k _ (Shm.view_lookup hl)
    have hmarker : (z.mem a).kind ≠ .marker := by
      have hall := List.countP_eq_zero.1 hnone a ha
      simpa using hall
    have hcounter : (z.mem a).kind = .counter := by
      cases hkind : (z.mem a).kind with
      | counter => rfl
      | entry => exact absurd hk (hentry hkind)
      | marker => exact absurd hkind hmarker
    have hdata : (z.mem a).data = none := by
      have hok := hq.shape a ha
      unfold Shm.NodeOk at hok
      rw [if_pos hcounter] at hok
      exact hok.1
    dsimp only
    rw [hdata]

/-- What `vary_apply` leaves when it reads nothing is what the gate sets. -/
theorem varyApply_absent (digest : Bytes → KeyHash) {z : Zone} (r : Request) {base : Bytes}
    {now : Time} (policy : MarkerPolicy)
    (h : markerLookup z (markerHash digest base) now = .absent) :
    varyApply digest z r base now policy = ⟨digest base, 0, true, false⟩ := by
  unfold varyApply
  rw [h]
  rfl

variable (rb : Rbtree)

/-- **The marker presence counter.**  After every run of operations on a zone it is no
smaller than the number of resident MARKER nodes.  When the run keeps its plain stores off
the marker keys `M` it is that number, and a lookup through the gate resolves every request
whose marker key is in `M` as the marker lookup would. -/
theorem markers_exact (mem : Addr → Node) (blob : BlobId → Blob) (answers : ℕ → Option Addr)
    (sketch : Sketch) (admission : Bool) (breakerState : ℕ) (run : List (Time × ZoneOp)) :
    let z := Run.after (Shm.runStep rb)
      (Shm.freshZone mem blob answers sketch admission breakerState) run
    z.residentMarkers ≤ z.markers ∧
      ∀ M : KeyHash → Prop, (∀ e ∈ run, Apart M e.2) →
        z.markers = z.residentMarkers ∧
          ∀ (digest : Bytes → KeyHash) (r : Request) (base : Bytes) (now : Time)
            (policy : MarkerPolicy), M (markerHash digest base) → z.markers = 0 →
            accessL1Vary digest true z r base now policy = varyApply digest z r base now policy := by
  intro z
  refine ⟨?_, fun M hrun => ?_⟩
  · obtain ⟨leak, hleak⟩ := Shm.tally_run rb mem blob answers sketch admission breakerState run
    have hle : z.markers = z.residentMarkers + leak := hleak
    omega
  · obtain ⟨htally, hapart, hq⟩ :=
      Shm.tally_run_apart rb mem blob answers sketch admission breakerState hrun
    refine ⟨htally, fun digest r base now policy hM hzero => ?_⟩
    have habsent : markerLookup z (markerHash digest base) now = .absent :=
      markerLookup_absent hq htally hapart hzero hM now
    have hgate : accessL1Vary digest true z r base now policy = ⟨digest base, 0, true, false⟩ := by
      unfold accessL1Vary
      rw [if_neg (by decide), if_pos hzero]
    rw [hgate, varyApply_absent digest r policy habsent]

/-! ### A zone whose marker was purged -/

/-- A zone whose slab always finds room. -/
def roomyZone : Zone :=
  Shm.freshZone (fun _ => ⟨Vector.replicate 32 0, .entry, none, 0, 0, 0, false, 0, 0, 0, 0, 0,
    .segProbation, false, false, false, 0⟩) (fun _ => ⟨0, 0, false, 0, []⟩) some
    ⟨none, 0, 0, 0, 0, 0, 0⟩ false 0

/-- A marker is stored twice, the page of another digest once, and the marker is purged. -/
def purgedMarkerRun : List (Time × ZoneOp) :=
  [(0, .storeMarker (Vector.replicate 32 0) 0 [1] 60 240),
    (1, .storeMarker (Vector.replicate 32 0) 0 [2] 60 240),
    (2, .store (Vector.replicate 32 1) 0 [3] 60 240 false),
    (3, .purgeKey (Vector.replicate 32 0))]

theorem markers_exact_purged :
    let z := Run.after (Shm.runStep Shm.Rbtree.unbalanced) roomyZone purgedMarkerRun
    z.markers = 0 ∧
      accessL1Vary (fun _ => Vector.replicate 32 0) true z (bareRequest [47]) [47] 4
          ⟨0, false, false, 0, 0⟩ =
        varyApply (fun _ => Vector.replicate 32 0) z (bareRequest [47]) [47] 4
          ⟨0, false, false, 0, 0⟩ := by
  have hzero : (Run.after (Shm.runStep Shm.Rbtree.unbalanced) roomyZone purgedMarkerRun).markers
      = 0 := by decide +kernel
  have hrun : ∀ e ∈ purgedMarkerRun, Apart (· = Vector.replicate 32 0) e.2 := by
    simp [purgedMarkerRun, Apart, ZoneOp.marks, ZoneOp.stores]
  obtain ⟨-, hexact⟩ := markers_exact Shm.Rbtree.unbalanced roomyZone.mem roomyZone.blob
    roomyZone.slab.answers roomyZone.sketch roomyZone.admission roomyZone.breakerState
    purgedMarkerRun
  obtain ⟨-, hgate⟩ := hexact _ hrun
  exact ⟨hzero, hgate _ _ _ _ _ rfl hzero⟩

end Http
end CacheTurbo
