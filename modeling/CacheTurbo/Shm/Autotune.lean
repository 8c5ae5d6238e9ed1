/-
# Live autotune

`ngx_http_cache_turbo_autotune.c`, and the two functions of the request path that read its
verdict, `ngx_http_cache_turbo_effective_beta` and `ngx_http_cache_turbo_effective_load`
(`ngx_http_cache_turbo_module.c`).

Every access of a field that others write meanwhile is a step of its own: each `fetch_add`, each
of the five reads of a recompute, the store of `autotuned_beta` and that of `autotuned_load`.
The snapshots are read and written by the holder of the mutex alone, in one step.  The counters
are 64-bit words and wrap; `counted`, `windows` and `claims` are ghosts, which the code has none
of.
-/

import CacheTurbo.Lib.Run
import CacheTurbo.Lib.Threads
import CacheTurbo.Shm.Node

namespace CacheTurbo
namespace Shm
namespace Autotune

/-! ## The verdict -/

/-- The counters that autotune reads, in that order. -/
inductive Figure
  | hits
  | misses
  | refreshes
  | costSum
  | costCount
  deriving DecidableEq, Repr

/-- One 64-bit word for each. -/
abbrev Figures := Figure → BitVec 64

/-- `NGX_HTTP_CACHE_TURBO_BETA_MIN`. -/
def betaMin : ℕ := 500

/-- `NGX_HTTP_CACHE_TURBO_BETA_MAX`. -/
def betaMax : ℕ := 3000

/-- `NGX_HTTP_CACHE_TURBO_AT_LOAD_BASE`. -/
def atLoadBase : ℕ := 1000

/-- `NGX_HTTP_CACHE_TURBO_AT_LOAD_MAX`. -/
def atLoadMax : ℕ := 4000

/-- `NGX_HTTP_CACHE_TURBO_AT_INTERVAL`. -/
def atInterval : Time := 30

/-- A word that is cast to `ngx_int_t`, and brought within bounds. -/
def clampInt (low high : ℕ) (x : BitVec 64) : ℕ :=
  if x.toInt < low then low else if x.toInt > high then high else x.toNat

/-- `qualifies`: regenerating is expensive, or not cheap while the hit rate is low, and the
misses are not mostly refreshes of hot keys. -/
def qualifies (d : Figures) (costMs : BitVec 64) : Bool :=
  (if costMs ≥ 30#64 ∧ d .misses ≥ 100#64 then true
    else decide (costMs ≥ 10#64 ∧ d .hits * 100#64 < (d .hits + d .misses) * 95#64)) &&
    !decide (d .refreshes > d .misses * 2#64)

/-- `ngx_http_cache_turbo_autotune_verdict`: beta and the load factor, or nothing where there is
too little data. -/
def autotuneVerdict (d : Figures) : Option (ℕ × ℕ) :=
  if d .hits + d .misses < 100#64 ∨ d .costCount = 0#64 then none
  else
    let costMs := d .costSum / d .costCount
    if qualifies d costMs then
      some (clampInt betaMin betaMax (costMs * 1000#64 / 20#64),
        clampInt atLoadBase atLoadMax (costMs * 100#64))
    else some (0, atLoadBase)

/-! ## The zone -/

/-- A window: what had been counted when it began and when it ended, and its verdict. -/
structure Window where
  start : Figure → ℕ
  stop : Figure → ℕ
  verdict : Option (ℕ × ℕ)

/-- The autotune fields of `ngx_http_cache_turbo_shctx_t`, and the mutex. -/
structure Shctx where
  figure : Figures
  snap : Figures
  autotunedBeta : ℕ
  autotunedLoad : ℕ
  autotuneNext : Time
  locked : Bool
  /-- What has ever been counted. -/
  counted : Figure → ℕ
  /-- The windows that are over, newest first. -/
  windows : List Window
  /-- The recomputes that were due: when, and for which interval. -/
  claims : List (Time × Time)

/-- A zone just initialised. -/
def Shctx.init : Shctx where
  figure := fun _ => 0
  snap := fun _ => 0
  autotunedBeta := 0
  autotunedLoad := 0
  autotuneNext := 0
  locked := false
  counted := fun _ => 0
  windows := []
  claims := []

/-- `ngx_atomic_fetch_add`. -/
def Shctx.add (z : Shctx) (f : Figure) (n : ℕ) : Shctx :=
  { z with
    figure := Function.update z.figure f (z.figure f + BitVec.ofNat 64 n)
    counted := Function.update z.counted f (z.counted f + n) }

/-- Where the newest window ended. -/
def Shctx.stop (z : Shctx) : Figure → ℕ := (z.windows.head?.map Window.stop).getD fun _ => 0

/-! ## The callers -/

/-- A call: a hit, a miss or a refresh is counted, or one of the routines of the file runs. -/
inductive AtCall
  | hit
  | miss
  | refresh
  | recordCost (ms : ℤ)
  | maybe (interval : Time)
  | force

/-- Where a call is, and its local variables. -/
inductive AtFrame
  | idle
  /-- `record_cost` has added the cost; the count is next. -/
  | counting
  /-- `maybe` has found a recompute due, and waits for the mutex. -/
  | due (interval now : Time)
  /-- `force` waits for the mutex. -/
  | forcing
  /-- `maybe` has the mutex, and looks again. -/
  | checking (interval now : Time)
  /-- The counters that are still to be read, those that were, and (a ghost) what had been counted
  by then. -/
  | reading (left : List Figure) (seen : Figures) (counted : Figure → ℕ)
  | publishing (beta load : ℕ)
  | publishingLoad (load : ℕ)
  | unlocking

/-- The read of a recompute that comes first. -/
def AtFrame.read : AtFrame :=
  .reading [.hits, .misses, .refreshes, .costSum, .costCount] (fun _ => 0) fun _ => 0

/-- The first step of a call. -/
def atBegin (now : Time) (call : AtCall) (z : Shctx) : Shctx × AtFrame :=
  match call with
  | .hit => (z.add .hits 1, .idle)
  | .miss => (z.add .misses 1, .idle)
  | .refresh => (z.add .refreshes 1, .idle)
  | .recordCost ms => (z.add .costSum ms.toNat, .counting)
  | .maybe interval =>
      if z.autotuneNext > now then (z, .idle)
      else (z, .due (if interval ≤ 0 then atInterval else interval) now)
  | .force => (z, .forcing)

/-- The verdict is computed, and the snapshots advance. -/
def Shctx.advance (z : Shctx) (seen : Figures) (counted : Figure → ℕ) : Shctx × AtFrame :=
  let verdict := autotuneVerdict fun f => seen f - z.snap f
  let z := { z with snap := seen, windows := ⟨z.stop, counted, verdict⟩ :: z.windows }
  match verdict with
  | some (beta, load) => (z, .publishing beta load)
  | none => (z, .unlocking)

/-- One step of a caller; a caller without a call begins the one it is given. -/
def atNext (input : Time × AtCall) (z : Shctx) (frame : AtFrame) : Shctx × AtFrame :=
  match frame with
  | .idle => atBegin input.1 input.2 z
  | .counting => (z.add .costCount 1, .idle)
  | .due interval now =>
      if z.locked then (z, frame) else ({ z with locked := true }, .checking interval now)
  | .forcing => if z.locked then (z, frame) else ({ z with locked := true }, .read)
  | .checking interval now =>
      if z.autotuneNext > now then (z, .unlocking)
      else ({ z with
        autotuneNext := now + interval
        claims := (now, interval) :: z.claims }, .read)
  | .reading [] seen counted => z.advance seen counted
  | .reading (f :: left) seen counted =>
      (z, .reading left (Function.update seen f (z.figure f))
        (Function.update counted f (z.counted f)))
  | .publishing beta load => ({ z with autotunedBeta := beta }, .publishingLoad load)
  | .publishingLoad load => ({ z with autotunedLoad := load }, .unlocking)
  | .unlocking => ({ z with locked := false }, .idle)

/-- The zone and its callers, of which there may be any number. -/
abbrev System := Threads Shctx AtFrame

/-- No caller is in a call. -/
def System.init : System := ⟨Shctx.init, fun _ => .idle⟩

/-! ## The readers -/

/-- `ngx_http_cache_turbo_band_t`, as far as it is read here. -/
structure Band where
  betaMin : ℕ
  betaMax : ℕ
  deriving DecidableEq, Repr

/-- `cache_turbo_preset`; without it the default. -/
inductive Preset
  | conservative
  | balanced
  | aggressive
  | micro
  deriving DecidableEq, Repr

/-- `NGX_HTTP_CACHE_TURBO_PRESET_DEFAULT`. -/
def Preset.default : Preset := .balanced

/-- `ngx_http_cache_turbo_bands`. -/
def bands : Preset → Band
  | .conservative => ⟨500, 1000⟩
  | .balanced => ⟨500, 2000⟩
  | .aggressive => ⟨1000, 3000⟩
  | .micro => ⟨500, 2000⟩

/-- What a location says of autotune. -/
structure Conf where
  autotune : Bool
  beta : ℤ
  preset : Option Preset

/-- `ngx_http_cache_turbo_effective_beta`. -/
def effectiveBeta (conf : Conf) (z : Shctx) : ℤ :=
  if conf.autotune = false then conf.beta
  else if z.autotunedBeta = 0 then conf.beta
  else
    let band := bands (conf.preset.getD .default)
    if z.autotunedBeta < band.betaMin then band.betaMin
    else if z.autotunedBeta > band.betaMax then band.betaMax
    else z.autotunedBeta

/-- `ngx_http_cache_turbo_effective_load`. -/
def effectiveLoad (conf : Conf) (z : Shctx) : ℕ :=
  if conf.autotune = false then atLoadBase
  else if z.autotunedLoad ≤ atLoadBase then atLoadBase
  else if z.autotunedLoad > atLoadMax then atLoadMax
  else z.autotunedLoad

end Autotune
end Shm
end CacheTurbo
