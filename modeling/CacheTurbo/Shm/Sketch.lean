/-
# The frequency sketch

`ngx_http_cache_turbo_sketch_row_hash`, `sketch_rows`, `sketch_get`,
`sketch_inc`, `sketch_halve`, `shm_sketch_bump` and `shm_sketch_estimate`
(`ngx_http_cache_turbo_shm.c`): four rows of 4-bit counters, two to a byte,
halved stripe by stripe.
-/

import CacheTurbo.Shm.Node
import Mathlib.Data.List.Range

namespace CacheTurbo
namespace Shm

/-- `NGX_HTTP_CACHE_TURBO_SKETCH_ROWS`. -/
def sketchRowCount : ℕ := 4

/-- `NGX_HTTP_CACHE_TURBO_SKETCH_MAX`. -/
def sketchMax : ℕ := 15

/-- `NGX_HTTP_CACHE_TURBO_SKETCH_HALVE_STRIPES`. -/
def sketchHalveStripes : ℕ := 16

/-- `ngx_http_cache_turbo_sketch_row_hash`. -/
def sketchRowHash (hash : UInt32) (row : ℕ) : UInt32 :=
  let h := hash ^^^ ((0x9e3779b9 : UInt32) * UInt32.ofNat (row + 1))
  let h := (h ^^^ (h >>> 16)) * 0x85ebca6b
  let h := (h ^^^ (h >>> 13)) * 0xc2b2ae35
  h ^^^ (h >>> 16)

/-- `ngx_http_cache_turbo_sketch_rows`. -/
def sketchRows (hash : UInt32) : List UInt32 :=
  (List.range sketchRowCount).map (sketchRowHash hash)

/-- `ngx_http_cache_turbo_sketch_get`. -/
def sketchGet (counters : ℕ → ℕ) (idx : ℕ) : ℕ :=
  let b := counters (idx >>> 1)
  if idx &&& 1 = 1 then b >>> 4 else b &&& 0x0f

/-- `ngx_http_cache_turbo_sketch_inc`: one counter of a byte, saturating. -/
def sketchInc (counters : ℕ → ℕ) (idx : ℕ) : ℕ → ℕ :=
  let byte := idx >>> 1
  if idx &&& 1 = 1 then
    if counters byte >>> 4 < sketchMax then
      Function.update counters byte ((counters byte + 0x10) % 256)
    else counters
  else
    if counters byte &&& 0x0f < sketchMax then
      Function.update counters byte ((counters byte + 0x01) % 256)
    else counters

/-- `ngx_http_cache_turbo_sketch_halve`: one stripe, from the cursor. -/
def sketchHalve (sk : Sketch) (counters : ℕ → ℕ) : Sketch :=
  let bytes := sk.width * sketchRowCount / 2
  let stripe := (bytes + sketchHalveStripes - 1) / sketchHalveStripes
  let start := if sk.cursor ≥ bytes then 0 else sk.cursor
  let stop := if start + stripe ≥ bytes then bytes else start + stripe
  let halved : ℕ → ℕ := fun i =>
    if start ≤ i ∧ i < stop then (counters i >>> 1) &&& 0x77 else counters i
  if stop ≥ bytes then
    { sk with counters := some halved, ops := 0, cursor := 0, gen := sk.gen + 1 }
  else
    { sk with counters := some halved, ops := 0, cursor := stop }

/-- The counter index of a row: `row * width + (rows[row] & (width - 1))`. -/
def sketchIndex (width row : ℕ) (h : UInt32) : ℕ := row * width + (h.toNat &&& (width - 1))

/-- `ngx_http_cache_turbo_shm_sketch_bump`. -/
def sketchBump (sk : Sketch) (rows : List UInt32) : Sketch :=
  match sk.counters with
  | none => sk
  | some counters =>
      let counters := (rows.zipIdx).foldl
        (fun c (h, row) => sketchInc c (sketchIndex sk.width row h)) counters
      let sk := { sk with counters := some counters, bumps := sk.bumps + 1, ops := sk.ops + 1 }
      if sk.ops ≥ sk.resetAt then sketchHalve sk counters else sk

/-- `ngx_http_cache_turbo_shm_sketch_estimate`. -/
def sketchEstimate (sk : Sketch) (rows : List UInt32) : ℕ :=
  match sk.counters with
  | none => 0
  | some counters =>
      (rows.zipIdx).foldl
        (fun least (h, row) =>
          let v := sketchGet counters (sketchIndex sk.width row h)
          if v < least then v else least) sketchMax

end Shm
end CacheTurbo
