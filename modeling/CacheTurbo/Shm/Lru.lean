/-
# The two LRU queues

`ngx_http_cache_turbo_lru_link_head`, `lru_unlink`, `lru_insert_new`,
`lru_enforce_cap` and `shm_touch_lru` (`ngx_http_cache_turbo_shm.c`).

A queue is a list, head first.  `ngx_queue_remove` takes a node off whichever
queue it is linked on, so unlinking erases it from both lists; the segment
label decides only which counter is charged.
-/

import CacheTurbo.Shm.Sketch

namespace CacheTurbo
namespace Shm

/-- `NGX_HTTP_CACHE_TURBO_LRU_CAP_MAX_EVICT`. -/
def lruCapMaxEvict : ℕ := 8

/-- `ngx_http_cache_turbo_lru_link_head`. -/
def lruLinkHead (z : Zone) (ctn : Addr) : Zone :=
  if (z.mem ctn).seg = .segProtected then
    { z with lruProtected := ctn :: z.lruProtected, nProtected := z.nProtected + 1 }
  else
    { z with lru := ctn :: z.lru }

/-- `ngx_http_cache_turbo_lru_unlink`. -/
def lruUnlink (z : Zone) (ctn : Addr) : Zone :=
  { z with
    lru := z.lru.erase ctn
    lruProtected := z.lruProtected.erase ctn
    nProtected := if (z.mem ctn).seg = .segProtected then z.nProtected - 1 else z.nProtected }

/-- `ngx_http_cache_turbo_lru_insert_new`. -/
def lruInsertNew (z : Zone) (ctn : Addr) : Zone :=
  let z := z.setNode ctn fun n =>
    { n with seg := .segProbation, sieSpared := false, varidxPending := false }
  { z with lru := ctn :: z.lru, nEntries := z.nEntries + 1 }

/-- The loop of `ngx_http_cache_turbo_lru_enforce_cap`: at most `fuel` more
demotions of the protected tail. -/
def lruDemote (cap : ℕ) : ℕ → Zone → Zone
  | 0, z => z
  | fuel + 1, z =>
      if z.nProtected > cap then
        match z.lruProtected.getLast? with
        | none => z
        | some victim =>
            let z := lruUnlink z victim
            let z := z.setNode victim fun n => { n with seg := .segProbation }
            lruDemote cap fuel (lruLinkHead z victim)
      else z

/-- `ngx_http_cache_turbo_lru_enforce_cap`. -/
def lruEnforceCap (z : Zone) (protectedPct : ℕ) : Zone :=
  let cap := (z.nEntries * protectedPct + 99) / 100
  lruDemote (if cap = 0 then 1 else cap) lruCapMaxEvict z

/-- `ngx_http_cache_turbo_shm_touch_lru`. -/
def touchLru (z : Zone) (ctn : Addr) (now : Time) (protectedPct : ℕ) (hash : UInt32) : Zone :=
  let z := { z with sketch := sketchBump z.sketch (sketchRows hash) }
  -- one LRU write per node per second
  if now - (z.mem ctn).lastAccess < 1 then z
  else
    let z := z.setNode ctn fun n => { n with lastAccess := now }
    let z := lruUnlink z ctn
    let z := z.setNode ctn fun n =>
      if protectedPct = 0 then { n with seg := .segProbation }
      else if n.kind = .entry ∧ n.seg = .segProbation ∧ n.promotable then
        { n with seg := .segProtected }
      else n
    let z := z.setNode ctn fun n => { n with promotable := true }
    let z := lruLinkHead z ctn
    if protectedPct > 0 then lruEnforceCap z protectedPct else z

end Shm
end CacheTurbo
