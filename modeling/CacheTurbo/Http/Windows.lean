/-
# The freshness windows of a response

The arithmetic of `ngx_http_cache_turbo_body_filter_windows` and of the 304 path, over every
header list, every table of statuses and every configuration.  Each sum and product of the
source has a checked form, which fails where a signed time of 64 bits does not hold it; the
checked forms never fail (`WindowRange`), and the windows obey the rules of precedence
(`WindowRules`).

A stale window of zero is written into the zone as the deadline 0, which every reader takes
for "no deadline".  `Feed` is a response on one of the two paths that write a window, and
`freshness_windows` says when a lifetime that the origin states as zero does not end there:
where the location does not honour it.
-/

import CacheTurbo.Http.ResponsePolicy
import CacheTurbo.Http.FreshenSpec
import CacheTurbo.Http.StoreTail

namespace CacheTurbo
namespace Http

open Bytes Blob Policy
open Shm (Zone Rbtree BlobId view)

/-! ## Checked arithmetic -/

/-- A sum or product as a signed time of 64 bits. -/
def checked (t : Time) : Option Time := if -2 ^ 63 ≤ t ∧ t < 2 ^ 63 then some t else none

theorem checked_of_range {t : Time} (hlow : -2 ^ 63 ≤ t) (hhigh : t < 2 ^ 63) :
    checked t = some t := if_pos ⟨hlow, hhigh⟩

/-- `ccDigits` with its sums checked. -/
def ccDigitsChecked (n : Time) : Bytes → Option Time
  | [] => some n
  | c :: s =>
      if c < 48 ∨ 57 < c then some (-1)
      else
        let d : Time := (c - 48).toNat
        if n ≥ maxTime / 10 ∧ (n > maxTime / 10 ∨ d > maxTime % 10) then ccDigitsChecked maxTime s
        else do
          let tens ← checked (n * 10)
          let sum ← checked (tens + d)
          ccDigitsChecked sum s

/-- `ccParseDelta` with its sums checked. -/
def ccParseDeltaChecked (p : Bytes) : Option Time :=
  if unquoted p = [] then some (-1) else ccDigitsChecked 0 (unquoted p)

/-- `expiresTtl` with its difference checked. -/
def expiresTtlChecked (http : TimeParser) (expires : Bytes) (now : Time) : Option Time :=
  if expires = [] then some (-1)
  else
    match http.parse expires with
    | none => some (-1)
    | some exp => (checked (exp - now)).map fun left => if left > 0 then left else 0

/-- `staleTtl` with its product checked. -/
def staleTtlChecked (freshTtl : Time) (staleMult : ℤ) : Option Time :=
  if freshTtl ≤ 0 then some 0
  else
    let staleMult := if staleMult ≤ 0 then staleMultiplier else staleMult
    if freshTtl > ttlMax / staleMult then some ttlMax else checked (freshTtl * staleMult)

/-- `addTtlClamped` with its difference and its sum checked. -/
def addTtlClampedChecked (base delta : Time) : Option Time := do
  let delta := if delta < 0 then 0 else delta
  let delta := if delta > ttlMax then ttlMax else delta
  let room ← checked (ttlMax - delta)
  if base > room then some ttlMax else checked (base + delta)

/-- The window that `keep_stale` leaves, with its sum checked. -/
def keptChecked (conf : CaptureConf) (ttl : Time) : Option Time :=
  (checked (ttl + conf.keepStale)).map fun kept => if kept > ttlMax then ttlMax else kept

/-- `windowsFor` over the checked operations. -/
def windowsForChecked (conf : CaptureConf) (resp : OriginResponse) (ttl : Time) :
    Option Windows := do
  let multiplied ← staleTtlChecked ttl conf.staleMult
  let staleWindow ← if ttl > 0 ∧ conf.ignoreCc = false ∧ resp.swr ≥ 0 then
    addTtlClampedChecked ttl resp.swr else some multiplied
  if ttl > 0 ∧ conf.ignoreCc = false ∧ resp.mustRevalidate then some ⟨ttl, ttl, 0⟩
  else if ttl > 0 ∧ conf.ignoreCc = false then
    if resp.sie ≥ 0 then (addTtlClampedChecked ttl resp.sie).map (⟨ttl, staleWindow, ·⟩)
    else if ttl > 0 ∧ conf.keepStale > 0 then
      (keptChecked conf ttl).map (⟨ttl, staleWindow, ·⟩)
    else some ⟨ttl, staleWindow, 0⟩
  else if ttl > 0 ∧ conf.ignoreCc ∧ conf.keepStale > 0 then
    (keptChecked conf ttl).map (⟨ttl, staleWindow, ·⟩)
  else some ⟨ttl, staleWindow, 0⟩

/-- `ngx_http_cache_turbo_body_filter_windows` over the checked operations. -/
def bodyFilterWindowsChecked (conf : CaptureConf) (resp : OriginResponse) :
    Option (Option Windows) :=
  let ttl := statusTtl conf resp.status
  if ttl < 0 then some none
  else (windowsForChecked conf resp (honouredTtl conf resp ttl)).map some

/-! ## The range -/

/-- One more digit of a delta that does not saturate. -/
theorem digit_range {n d : ℤ} (hn : 0 ≤ n) (hd : 0 ≤ d)
    (h : ¬(n ≥ (9223372036854775807 : ℤ) / 10 ∧
      (n > (9223372036854775807 : ℤ) / 10 ∨ d > (9223372036854775807 : ℤ) % 10)))
    (hdigit : d ≤ 9) : n * 10 ≤ 9223372036854775807 ∧ n * 10 + d ≤ 9223372036854775807 := by
  omega

theorem digit_le {c : UInt8} (h : ¬(c < 48 ∨ 57 < c)) : (c - 48).toNat ≤ 9 := by
  obtain ⟨hlow, hhigh⟩ := not_or.1 h
  have hle : c ≤ 57 := UInt8.not_lt.1 hhigh
  have hge : 48 ≤ c := UInt8.not_lt.1 hlow
  rw [UInt8.toNat_sub_of_le c 48 hge]
  have hnat : c.toNat ≤ 57 := hle
  have h48 : (48 : UInt8).toNat = 48 := rfl
  omega

theorem ccDigitsChecked_eq {n : Time} (hn : 0 ≤ n) (s : Bytes) :
    ccDigitsChecked n s = some (ccDigits n s) := by
  induction s generalizing n with
  | nil => rfl
  | cons c s ih =>
    unfold ccDigitsChecked ccDigits
    by_cases hother : c < 48 ∨ 57 < c
    · rw [if_pos hother, if_pos hother]
    · rw [if_neg hother, if_neg hother]
      dsimp only
      by_cases hfull : n ≥ maxTime / 10 ∧
          (n > maxTime / 10 ∨ ((c - 48).toNat : Time) > maxTime % 10)
      · rw [if_pos hfull, if_pos hfull]
        exact ih (by decide)
      · rw [if_neg hfull, if_neg hfull]
        have hd : (0 : ℤ) ≤ ((c - 48).toNat : ℤ) := Int.natCast_nonneg _
        obtain ⟨htens, hsum⟩ := digit_range hn hd hfull (Int.ofNat_le.2 (digit_le hother))
        have hten : (0 : ℤ) ≤ n * 10 := Int.mul_nonneg hn (by decide)
        have hall : (0 : ℤ) ≤ n * 10 + ((c - 48).toNat : ℤ) := Int.add_nonneg hten hd
        have hmin : (-2 ^ 63 : ℤ) ≤ 0 := by decide
        have hmax : (9223372036854775807 : ℤ) < 2 ^ 63 := by decide
        rw [checked_of_range (Int.le_trans hmin hten) (Int.lt_of_le_of_lt htens hmax)]
        rw [Option.bind_eq_bind, Option.bind_some,
          checked_of_range (Int.le_trans hmin hall) (Int.lt_of_le_of_lt hsum hmax),
          Option.bind_some]
        exact ih hall

/-- **No delta of a response overflows**: a long one stays at the largest time. -/
theorem ccParseDeltaChecked_eq (p : Bytes) : ccParseDeltaChecked p = some (ccParseDelta p) := by
  unfold ccParseDeltaChecked ccParseDelta
  split_ifs
  · rfl
  · exact ccDigitsChecked_eq le_rfl _

theorem expiresTtlChecked_eq (http : TimeParser) (expires : Bytes) {now : Time}
    (hnow : 0 ≤ now ∧ now ≤ 2 ^ 62) :
    expiresTtlChecked http expires now = some (expiresTtl http expires now) := by
  unfold expiresTtlChecked expiresTtl
  split_ifs
  · rfl
  · cases hparse : http.parse expires with
    | none => rfl
    | some exp =>
      obtain ⟨hlow, hhigh⟩ := http.range _ _ hparse
      have hmin : (-2 ^ 63 : ℤ) ≤ exp - now := Int.sub_le_sub hlow hnow.2
      have hmax : exp - now < (2 ^ 63 : ℤ) :=
        Int.lt_of_le_of_lt (Int.sub_le_sub hhigh hnow.1) (by decide)
      dsimp only
      rw [checked_of_range hmin hmax, Option.map_some]

/-- A time between 0 and the cap. -/
theorem checked_of_ttl {t : Time} (hlow : 0 ≤ t) (hhigh : t ≤ ttlMax) : checked t = some t :=
  checked_of_range (Int.le_trans (by decide) hlow) (Int.lt_of_le_of_lt hhigh (by decide))

theorem staleTtlChecked_eq (freshTtl : Time) (staleMult : ℤ) :
    staleTtlChecked freshTtl staleMult = some (staleTtl freshTtl staleMult) := by
  have hle := staleTtl_le freshTtl staleMult
  have hge := staleTtl_nonneg freshTtl staleMult
  unfold staleTtlChecked
  unfold staleTtl at hle hge ⊢
  dsimp only at hle hge ⊢
  split_ifs at hle hge ⊢ with hzero hmult hbig hbig
  · rfl
  · rfl
  · exact checked_of_ttl hge hle
  · rfl
  · exact checked_of_ttl hge hle

theorem addTtlClampedChecked_eq {base : Time} (hbase : 0 ≤ base) (delta : Time) :
    addTtlClampedChecked base delta = some (addTtlClamped base delta) := by
  unfold addTtlClampedChecked addTtlClamped
  dsimp only
  have hdelta : 0 ≤ (if (if delta < 0 then 0 else delta) > ttlMax then ttlMax
      else if delta < 0 then 0 else delta) ∧
      (if (if delta < 0 then 0 else delta) > ttlMax then ttlMax
        else if delta < 0 then 0 else delta) ≤ ttlMax := by
    by_cases hneg : delta < 0
    · rw [if_pos hneg]
      decide
    · rw [if_neg hneg]
      by_cases hbig : delta > ttlMax
      · rw [if_pos hbig]
        decide
      · rw [if_neg hbig]
        exact ⟨Int.not_lt.1 hneg, Int.not_lt.1 hbig⟩
  generalize (if (if delta < 0 then 0 else delta) > ttlMax then ttlMax
    else if delta < 0 then 0 else delta) = capped at hdelta
  have hroom : checked (ttlMax - capped) = some (ttlMax - capped) :=
    checked_of_ttl (Int.sub_nonneg_of_le hdelta.2) (Int.sub_le_self _ hdelta.1)
  rw [hroom, Option.bind_eq_bind, Option.bind_some]
  by_cases hbig : base > ttlMax - capped
  · rw [if_pos hbig, if_pos hbig]
  · rw [if_neg hbig, if_neg hbig]
    exact checked_of_ttl (Int.add_nonneg hbase hdelta.1)
      (Int.add_le_of_le_sub_right (Int.not_lt.1 hbig))

/-! ## `cache_turbo_keep_stale` -/

/-- `NGX_HTTP_CACHE_TURBO_FOREVER_TTL`. -/
def foreverTtl : Time := 315360000

/-- The argument of `cache_turbo_keep_stale`; `time` is what `ngx_parse_time` reads. -/
inductive KeepStaleArg
  | unset
  | off
  | forever
  | time (t : ℕ)
  deriving DecidableEq, Repr

/-- `ngx_http_cache_turbo_keep_stale`, and the default of the merge. -/
def keepStaleConf : KeepStaleArg → Time
  | .unset => 86400
  | .off => 0
  | .forever => foreverTtl
  | .time t => if (t : Time) > ttlMax then ttlMax else t

theorem keepStaleConf_range (arg : KeepStaleArg) :
    0 ≤ keepStaleConf arg ∧ keepStaleConf arg ≤ ttlMax := by
  cases arg with
  | unset => decide
  | off => decide
  | forever => decide
  | time t =>
    dsimp only [keepStaleConf]
    by_cases hbig : (t : Time) > ttlMax
    · rw [if_pos hbig]
      decide
    · rw [if_neg hbig]
      exact ⟨Int.natCast_nonneg t, Int.not_lt.1 hbig⟩

theorem keptChecked_eq {conf : CaptureConf} {ttl : Time} (httl : 0 ≤ ttl ∧ ttl ≤ ttlMax)
    (hkeep : 0 ≤ conf.keepStale ∧ conf.keepStale ≤ ttlMax) :
    keptChecked conf ttl =
      some (if ttl + conf.keepStale > ttlMax then ttlMax else ttl + conf.keepStale) := by
  unfold keptChecked
  have hlow : (0 : ℤ) ≤ ttl + conf.keepStale := Int.add_nonneg httl.1 hkeep.1
  have hhigh : ttl + conf.keepStale ≤ ttlMax + ttlMax := Int.add_le_add httl.2 hkeep.2
  rw [checked_of_range (Int.le_trans (by decide) hlow)
    (Int.lt_of_le_of_lt hhigh (by decide)), Option.map_some]

theorem windowsForChecked_eq {conf : CaptureConf} {ttl : Time} (httl : 0 ≤ ttl ∧ ttl ≤ ttlMax)
    (hkeep : 0 ≤ conf.keepStale ∧ conf.keepStale ≤ ttlMax) (resp : OriginResponse) :
    windowsForChecked conf resp ttl = some (windowsFor conf resp ttl) := by
  unfold windowsForChecked windowsFor
  rw [staleTtlChecked_eq, addTtlClampedChecked_eq httl.1, addTtlClampedChecked_eq httl.1,
    keptChecked_eq httl hkeep]
  simp only [Option.bind_eq_bind, Option.bind_some, Option.map_some]
  split_ifs
  all_goals rfl

/-- **No window of a body overflows.** -/
theorem bodyFilterWindowsChecked_eq {conf : CaptureConf}
    (hkeep : 0 ≤ conf.keepStale ∧ conf.keepStale ≤ ttlMax) (resp : OriginResponse) :
    bodyFilterWindowsChecked conf resp = some (bodyFilterWindows conf resp) := by
  unfold bodyFilterWindowsChecked bodyFilterWindows
  dsimp only
  by_cases hneg : statusTtl conf resp.status < 0
  · rw [if_pos hneg, if_pos hneg]
  · rw [if_neg hneg, if_neg hneg,
      windowsForChecked_eq ⟨honouredTtl_nonneg conf resp (Int.not_lt.1 hneg),
        honouredTtl_le conf resp _⟩ hkeep, Option.map_some]

/-! ## The rules of precedence -/

/-- `addTtlClamped` is a capped sum. -/
theorem addTtlClamped_eq_min {base delta : Time} (hbase : 0 ≤ base) (hdelta : 0 ≤ delta) :
    addTtlClamped base delta = min (base + delta) ttlMax := by
  unfold addTtlClamped
  rw [if_neg (Int.not_lt.2 hdelta)]
  dsimp only
  by_cases hbig : delta > ttlMax
  · rw [if_pos hbig]
    have hsum : ttlMax ≤ base + delta :=
      Int.le_trans (Int.le_of_lt hbig) (Int.le_add_of_nonneg_left hbase)
    rw [min_eq_right hsum]
    by_cases hroom : base > ttlMax - ttlMax
    · rw [if_pos hroom]
    · rw [if_neg hroom]
      have hzero : base = 0 := by
        rw [Int.sub_self] at hroom
        exact Int.le_antisymm (Int.not_lt.1 hroom) hbase
      rw [hzero, Int.zero_add]
  · rw [if_neg hbig]
    by_cases hroom : base > ttlMax - delta
    · rw [if_pos hroom, min_eq_right (Int.le_of_lt (Int.lt_add_of_sub_right_lt hroom))]
    · rw [if_neg hroom, min_eq_left (Int.add_le_of_le_sub_right (Int.not_lt.1 hroom))]

/-- `staleTtl` is a capped product. -/
theorem staleTtl_eq_min {ttl : Time} (hpos : 0 < ttl) {staleMult : ℤ} (hmult : 1 ≤ staleMult) :
    staleTtl ttl staleMult = min (ttl * staleMult) ttlMax := by
  have hmult' : 0 < staleMult := hmult
  unfold staleTtl
  rw [if_neg (Int.not_le.2 hpos), if_neg (Int.not_le.2 hmult')]
  dsimp only
  by_cases hbig : ttl > ttlMax / staleMult
  · rw [if_pos hbig, min_eq_right (Int.le_of_lt (Int.lt_mul_of_ediv_lt hmult' hbig))]
  · rw [if_neg hbig, min_eq_left ((Int.le_ediv_iff_mul_le hmult').1 (Int.not_lt.1 hbig))]

/-- How the parts of a response and of the configuration make up its windows. -/
structure WindowRules (conf : CaptureConf) (resp : OriginResponse) (w : Windows) : Prop where
  ttl : 0 ≤ w.ttl ∧ w.ttl ≤ ttlMax
  stale : 0 < w.ttl → w.ttl ≤ w.staleWindow ∧ w.staleWindow ≤ ttlMax
  sie : 0 < w.ttl → w.sieWindow = 0 ∨ w.ttl ≤ w.sieWindow ∧ w.sieWindow ≤ ttlMax
  /-- The response's own window takes the place of the multiplier. -/
  replaced : 0 < w.ttl → conf.ignoreCc = false → resp.mustRevalidate = false → 0 ≤ resp.swr →
    w.staleWindow = min (w.ttl + resp.swr) ttlMax
  multiplied : 0 < w.ttl →
    conf.ignoreCc = true ∨ resp.mustRevalidate = false ∧ resp.swr < 0 →
    w.staleWindow = min (w.ttl * conf.staleMult) ttlMax
  collapsed : 0 < w.ttl → conf.ignoreCc = false → resp.mustRevalidate = true →
    w.staleWindow = w.ttl ∧ w.sieWindow = 0
  /-- The response's own window on error takes the place of `keep_stale`. -/
  onError : 0 < w.ttl → conf.ignoreCc = false → resp.mustRevalidate = false → 0 ≤ resp.sie →
    w.sieWindow = min (w.ttl + resp.sie) ttlMax
  kept : 0 < w.ttl → conf.ignoreCc = true ∨ resp.mustRevalidate = false ∧ resp.sie < 0 →
    w.sieWindow = if conf.keepStale > 0 then min (w.ttl + conf.keepStale) ttlMax else 0
  /-- A body without a lifetime gets no window at all. -/
  zero : w.ttl = 0 → w.staleWindow = 0 ∧ w.sieWindow = 0

/-- The window on error of a body that need not be revalidated. -/
def errorWindow (conf : CaptureConf) (resp : OriginResponse) (ttl : Time) : Time :=
  if conf.ignoreCc = false ∧ resp.sie ≥ 0 then addTtlClamped ttl resp.sie
  else if conf.keepStale > 0 then
    if ttl + conf.keepStale > ttlMax then ttlMax else ttl + conf.keepStale
  else 0

/-- The stale window of a body that need not be revalidated. -/
def softWindow (conf : CaptureConf) (resp : OriginResponse) (ttl : Time) : Time :=
  if conf.ignoreCc = false ∧ resp.swr ≥ 0 then addTtlClamped ttl resp.swr
  else staleTtl ttl conf.staleMult

theorem windowsFor_zero (conf : CaptureConf) (resp : OriginResponse) :
    windowsFor conf resp 0 = ⟨0, 0, 0⟩ := by
  unfold windowsFor
  simp only [show ¬(0 : Time) > 0 from lt_irrefl _, false_and, if_false]
  rfl

theorem windowsFor_must {conf : CaptureConf} {resp : OriginResponse} {ttl : Time} (hpos : 0 < ttl)
    (hcc : conf.ignoreCc = false) (hmust : resp.mustRevalidate = true) :
    windowsFor conf resp ttl = ⟨ttl, ttl, 0⟩ := by
  unfold windowsFor
  rw [if_pos ⟨hpos, hcc, hmust⟩]

theorem windowsFor_soft {conf : CaptureConf} {resp : OriginResponse} {ttl : Time} (hpos : 0 < ttl)
    (hsoft : conf.ignoreCc = true ∨ resp.mustRevalidate = false) :
    windowsFor conf resp ttl = ⟨ttl, softWindow conf resp ttl, errorWindow conf resp ttl⟩ := by
  have hp : (ttl > 0) = True := eq_true hpos
  unfold windowsFor softWindow errorWindow
  rcases Bool.eq_false_or_eq_true conf.ignoreCc with hcc | hcc
  · simp only [hp, hcc, true_and, Bool.true_eq_false, false_and, if_false]
    split_ifs
    all_goals rfl
  · have hmust := hsoft.resolve_left (by rw [hcc]; exact Bool.false_ne_true)
    simp only [hp, hcc, hmust, true_and, Bool.false_eq_true, false_and, if_false, if_true]
    split_ifs
    all_goals rfl

theorem staleTtl_ge {ttl : Time} (hpos : 0 < ttl) (hle : ttl ≤ ttlMax) {staleMult : ℤ}
    (hmult : 1 ≤ staleMult) : ttl ≤ staleTtl ttl staleMult := by
  have hmul : ttl * 1 ≤ ttl * staleMult := Int.mul_le_mul_of_nonneg_left hmult (Int.le_of_lt hpos)
  rw [Int.mul_one] at hmul
  rw [staleTtl_eq_min hpos hmult]
  exact le_min hmul hle

theorem softWindow_range {conf : CaptureConf} (hmult : 1 ≤ conf.staleMult) {ttl : Time}
    (hpos : 0 < ttl) (hle : ttl ≤ ttlMax) (resp : OriginResponse) :
    ttl ≤ softWindow conf resp ttl ∧ softWindow conf resp ttl ≤ ttlMax := by
  unfold softWindow
  split_ifs
  · exact ⟨addTtlClamped_ge hle _, addTtlClamped_le _ _⟩
  · exact ⟨staleTtl_ge hpos hle hmult, staleTtl_le _ _⟩

theorem keptWindow_eq_min (ttl keepStale : Time) :
    (if ttl + keepStale > ttlMax then ttlMax else ttl + keepStale) =
      min (ttl + keepStale) ttlMax := by
  by_cases hbig : ttl + keepStale > ttlMax
  · rw [if_pos hbig, min_eq_right (Int.le_of_lt hbig)]
  · rw [if_neg hbig, min_eq_left (Int.not_lt.1 hbig)]

theorem errorWindow_range (conf : CaptureConf) {ttl : Time} (hle : ttl ≤ ttlMax)
    (resp : OriginResponse) : errorWindow conf resp ttl = 0 ∨
      ttl ≤ errorWindow conf resp ttl ∧ errorWindow conf resp ttl ≤ ttlMax := by
  unfold errorWindow
  rw [keptWindow_eq_min]
  split_ifs with hsie hkeep
  · exact Or.inr ⟨addTtlClamped_ge hle _, addTtlClamped_le _ _⟩
  · exact Or.inr ⟨le_min (Int.le_add_of_nonneg_right (Int.le_of_lt hkeep)) hle, min_le_right _ _⟩
  · exact Or.inl rfl

/-- **The windows that a lifetime is given** keep the rules. -/
theorem windowsFor_rules {conf : CaptureConf} (hmult : 1 ≤ conf.staleMult) (resp : OriginResponse)
    {ttl : Time} (httl : 0 ≤ ttl) (hle : ttl ≤ ttlMax) :
    WindowRules conf resp (windowsFor conf resp ttl) := by
  rcases Int.lt_or_eq_of_le httl with hpos | hzero
  · by_cases hmust : conf.ignoreCc = false ∧ resp.mustRevalidate = true
    · -- the window is the lifetime
      rw [windowsFor_must hpos hmust.1 hmust.2]
      have hnot : ¬(conf.ignoreCc = true ∨ resp.mustRevalidate = false ∧ resp.swr < 0) := by
        rw [hmust.1, hmust.2]
        exact nofun
      have hnot' : ¬(conf.ignoreCc = true ∨ resp.mustRevalidate = false ∧ resp.sie < 0) := by
        rw [hmust.1, hmust.2]
        exact nofun
      have hne : resp.mustRevalidate ≠ false := by rw [hmust.2]; decide
      exact {
        ttl := ⟨httl, hle⟩
        stale := fun _ => ⟨le_rfl, hle⟩
        sie := fun _ => Or.inl rfl
        replaced := fun _ _ h => absurd h hne
        multiplied := fun _ h => absurd h hnot
        collapsed := fun _ _ _ => ⟨rfl, rfl⟩
        onError := fun _ _ h => absurd h hne
        kept := fun _ h => absurd h hnot'
        zero := fun h => absurd h (Int.ne_of_gt hpos) }
    · have hsoft : conf.ignoreCc = true ∨ resp.mustRevalidate = false := by
        rcases Bool.eq_false_or_eq_true conf.ignoreCc with hcc | hcc
        · exact Or.inl hcc
        · exact Or.inr (Bool.eq_false_iff.2 fun h => hmust ⟨hcc, h⟩)
      rw [windowsFor_soft hpos hsoft]
      exact {
        ttl := ⟨httl, hle⟩
        stale := fun _ => softWindow_range hmult hpos hle resp
        sie := fun _ => errorWindow_range conf hle resp
        replaced := fun _ hcc _ hswr => by
          show softWindow conf resp ttl = _
          rw [softWindow, if_pos ⟨hcc, hswr⟩, addTtlClamped_eq_min httl hswr]
        multiplied := fun _ h => by
          show softWindow conf resp ttl = _
          rw [softWindow, if_neg ?_, staleTtl_eq_min hpos hmult]
          rintro ⟨hcc, hswr⟩
          rcases h with hign | ⟨-, hneg⟩
          · rw [hcc] at hign
            cases hign
          · exact absurd hneg (Int.not_lt.2 hswr)
        collapsed := fun _ hcc h => absurd ⟨hcc, h⟩ hmust
        onError := fun _ hcc _ hsie => by
          show errorWindow conf resp ttl = _
          rw [errorWindow, if_pos ⟨hcc, hsie⟩, addTtlClamped_eq_min httl hsie]
        kept := fun _ h => by
          show errorWindow conf resp ttl = _
          rw [errorWindow, if_neg ?_, keptWindow_eq_min]
          rintro ⟨hcc, hsie⟩
          rcases h with hign | ⟨-, hneg⟩
          · rw [hcc] at hign
            cases hign
          · exact absurd hneg (Int.not_lt.2 hsie)
        zero := fun h => absurd h (Int.ne_of_gt hpos) }
  · subst hzero
    rw [windowsFor_zero]
    have hno : ¬(0 : Time) < 0 := lt_irrefl _
    exact {
      ttl := ⟨httl, hle⟩
      stale := fun h => absurd h hno
      sie := fun h => absurd h hno
      replaced := fun h => absurd h hno
      multiplied := fun h => absurd h hno
      collapsed := fun h => absurd h hno
      onError := fun h => absurd h hno
      kept := fun h => absurd h hno
      zero := fun _ => ⟨rfl, rfl⟩ }

/-- The windows of a response are those of its lifetime. -/
theorem bodyFilterWindows_some {conf : CaptureConf} {resp : OriginResponse} {w : Windows}
    (h : bodyFilterWindows conf resp = some w) : 0 ≤ statusTtl conf resp.status ∧
      w = windowsFor conf resp (honouredTtl conf resp (statusTtl conf resp.status)) := by
  unfold bodyFilterWindows at h
  by_cases hneg : statusTtl conf resp.status < 0
  · rw [if_pos hneg] at h
    cases h
  · rw [if_neg hneg] at h
    exact ⟨Int.not_lt.1 hneg, (Option.some.inj h).symm⟩

/-- **The windows of every response keep the rules.** -/
theorem bodyFilterWindows_rules {conf : CaptureConf} (hmult : 1 ≤ conf.staleMult)
    {resp : OriginResponse} {w : Windows} (h : bodyFilterWindows conf resp = some w) :
    WindowRules conf resp w := by
  obtain ⟨hown, rfl⟩ := bodyFilterWindows_some h
  exact windowsFor_rules hmult resp (honouredTtl_nonneg conf resp hown) (honouredTtl_le conf resp _)

/-- With `ignore_cc` the windows come from the status alone. -/
theorem bodyFilterWindows_ignoreCc {conf : CaptureConf} (hign : conf.ignoreCc = true)
    {resp resp' : OriginResponse} (hstatus : resp.status = resp'.status) :
    bodyFilterWindows conf resp = bodyFilterWindows conf resp' := by
  unfold bodyFilterWindows windowsFor honouredTtl
  simp only [hign, hstatus, Bool.not_true, Bool.and_false, Bool.false_and, Bool.false_eq_true,
    Bool.true_eq_false, false_and, and_false, if_false]

/-! ## From headers to windows -/

/-- What else the header filter finds out about a response. -/
structure Report where
  encoded : Bool
  encodedOk : Bool
  noStoreOk : Bool
  trailers : Bool
  ambiguousFraming : Bool
  deriving DecidableEq, Repr

/-- `ctx->capture_headers`, the copy that `header_filter_snapshot` takes of the live headers. -/
def captureHeaders (headers : List Header) : List Header := headers.filter fun h => h.hash ≠ 0

/-- A response as the policy of the location reads its headers. -/
def observe (http : TimeParser) (now : Time) (conf : CaptureConf) (pconf : PolicyConf)
    (authorization : Bool) (status : ℕ) (headers : List Header) (report : Report) :
    OriginResponse :=
  let policy := responsePolicy http now { pconf with ignoreCc := conf.ignoreCc } authorization
    headers
  { status := status
    upstreamTtl := policy.upstreamTtl
    swr := policy.swr
    sie := policy.sie
    mustRevalidate := policy.mustRevalidate
    cacheable := policy.cacheable
    requireHdrOk := policy.requireHdrOk
    encoded := report.encoded
    encodedOk := report.encodedOk
    noStoreOk := report.noStoreOk
    trailers := report.trailers
    ambiguousFraming := report.ambiguousFraming }

/-- A 304, whose lifetime `ngx_http_cache_turbo_upstream_ttl` reads. -/
def observe304 (http : TimeParser) (now : Time) (conf : CaptureConf) (pconf : PolicyConf)
    (authorization : Bool) (headers : List Header) (report : Report) : OriginResponse :=
  { observe http now conf pconf authorization 304 headers report with
    upstreamTtl := upstreamTtl http now headers }

/-- The policy reads nothing of a dead header. -/
theorem responsePolicy_captureHeaders (http : TimeParser) (now : Time) (pconf : PolicyConf)
    (authorization : Bool) (headers : List Header) :
    responsePolicy http now pconf authorization (captureHeaders headers) =
      responsePolicy http now pconf authorization headers := by
  have hdead : ∀ (p : PolicyPass) (h : Header),
      (if decide (h.hash ≠ 0) = true then policyHeader pconf p h else p) =
        policyHeader pconf p h := by
    intro p h
    by_cases hzero : h.hash = 0
    · rw [if_neg (by rw [decide_eq_true_iff]; exact not_not.2 hzero), policyHeader,
        if_pos (Or.inl hzero)]
    · rw [if_pos (decide_eq_true hzero)]
  unfold responsePolicy captureHeaders
  rw [List.foldl_filter]
  simp only [hdead]

/-- The arithmetic of the windows in one location. -/
structure WindowArithmetic (http : TimeParser) (conf : CaptureConf) (pconf : PolicyConf)
    (now : Time) : Prop where
  rules : ∀ authorization status headers report w,
    bodyFilterWindows conf (observe http now conf pconf authorization status headers report) =
      some w →
    WindowRules conf (observe http now conf pconf authorization status headers report) w
  inert : conf.ignoreCc = true →
    ∀ authorization authorization' status headers headers' report report',
      bodyFilterWindows conf (observe http now conf pconf authorization status headers report) =
        bodyFilterWindows conf
          (observe http now conf pconf authorization' status headers' report')
  delta : ∀ value, ccParseDeltaChecked value = some (ccParseDelta value)
  expires : ∀ value, expiresTtlChecked http value now = some (expiresTtl http value now)
  window : ∀ resp, bodyFilterWindowsChecked conf resp = some (bodyFilterWindows conf resp)
  deadline : ∀ resp w, bodyFilterWindows conf resp = some w →
    checked (now + w.ttl) = some (now + w.ttl) ∧
      checked (now + w.staleWindow) = some (now + w.staleWindow)
  freshened : ∀ resp, staleTtlChecked (freshenTtl conf resp) conf.staleMult =
    some (staleTtl (freshenTtl conf resp) conf.staleMult)

theorem checked_deadline {now : Time} (hnow : 0 ≤ now ∧ now ≤ 2 ^ 62) {t : Time}
    (ht : 0 ≤ t ∧ t ≤ ttlMax) : checked (now + t) = some (now + t) := by
  have hlow : (0 : ℤ) ≤ now + t := Int.add_nonneg hnow.1 ht.1
  have hhigh : now + t ≤ 2 ^ 62 + ttlMax := Int.add_le_add hnow.2 ht.2
  exact checked_of_range (Int.le_trans (by decide) hlow) (Int.lt_of_le_of_lt hhigh (by decide))

/-- **The arithmetic of the windows is sound** in every location and for every header list. -/
theorem windowArithmetic (http : TimeParser) {conf : CaptureConf} (pconf : PolicyConf)
    (hmult : 1 ≤ conf.staleMult) {keep : KeepStaleArg} (hkeep : conf.keepStale = keepStaleConf keep)
    {now : Time} (hnow : 0 ≤ now ∧ now ≤ 2 ^ 62) : WindowArithmetic http conf pconf now where
  rules _ _ _ _ _ h := bodyFilterWindows_rules hmult h
  inert hign _ _ _ _ _ _ _ := bodyFilterWindows_ignoreCc hign rfl
  delta := ccParseDeltaChecked_eq
  expires value := expiresTtlChecked_eq http value hnow
  window := bodyFilterWindowsChecked_eq (hkeep ▸ keepStaleConf_range keep)
  deadline _ _ h :=
    ⟨checked_deadline hnow (bodyFilterWindows_fit h).ttl,
      checked_deadline hnow (bodyFilterWindows_fit h).staleWindow⟩
  freshened _ := staleTtlChecked_eq _ _

/-! ## The two paths into the zone -/

/-- A response on one of the paths that write a window.  A body is seen first by the header
filter, at `seen`, and stored when it is complete. -/
inductive Feed
  | body (r : Request) (ctx : CaptureCtx) (seen : Time) (authorization : Bool) (status : ℕ)
      (headers : List Header) (report : Report) (captured : Captured) (key : KeyHash)
      (wanted : Bool)
  | notModified (r : Request) (ctx : CaptureCtx) (authorization : Bool) (headers : List Header)
      (report : Report)

namespace Feed

/-- The lifetime that the origin states, and `-1` where it states none. -/
def stated (http : TimeParser) (pconf : PolicyConf) (now : Time) : Feed → Time
  | .body _ _ _ authorization _ headers _ _ _ _ =>
      (responsePolicy http now { pconf with ignoreCc := false } authorization headers).upstreamTtl
  | .notModified _ _ _ headers _ => upstreamTtl http now headers

/-- The lifetime that the configuration gives. -/
def own (conf : CaptureConf) : Feed → Time
  | .body _ _ _ _ status _ _ _ _ _ => statusTtl conf status
  | .notModified _ _ _ _ _ => conf.valid

/-- The key whose entry is written and the zone after it, when one is written. -/
def run (http : TimeParser) (digest : Bytes → KeyHash) (crc : KeyHash → UInt32) (rb : Rbtree)
    (conf : CaptureConf) (pconf : PolicyConf) (z : Zone) (now : Time) :
    Feed → Option (KeyHash × Zone)
  | .body r ctx seen authorization status headers report captured key wanted =>
      match captureBranch conf r ctx
        (observe http seen conf pconf authorization status headers report) with
      | .capture =>
          match bodyFilterWindows conf (observe http now conf pconf authorization status
            (captureHeaders headers) report) with
          | none => none
          | some w =>
              match captureBlob conf now status captured w with
              | none => none
              | some blob =>
                  let stored := bodyFilterStore rb z key (crc key) now status blob w wanted
                  if stored.2.1 = .ok then some (key, stored.1) else none
      | _ => none
  | .notModified r ctx authorization headers report =>
      let resp := observe304 http now conf pconf authorization headers report
      match captureBranch conf r ctx resp with
      | .freshen =>
          let freshened := headerFilterFreshen304 digest conf z now r ctx resp
          if freshened.2 = .ok then some (freshenKey digest conf r ctx, freshened.1) else none
      | _ => none

end Feed

/-- A reader finds no deadline. -/
def Forever (z : Zone) (key : KeyHash) : Prop := ∃ c, view z key = some c ∧ c.staleUntil = 0

/-- The location takes a lifetime from the origin. -/
def Honours (conf : CaptureConf) : Prop := conf.honorCc = true ∧ conf.ignoreCc = false

theorem honouredTtl_nonpos_iff {conf : CaptureConf} {resp : OriginResponse}
    (hstated : Honours conf → resp.upstreamTtl = 0) (own : Time) :
    honouredTtl conf resp own ≤ 0 ↔ Honours conf ∨ own ≤ 0 := by
  have hcap : ∀ t : Time, (if t > ttlMax then ttlMax else t) ≤ 0 ↔ t ≤ 0 := by
    intro t
    by_cases hbig : t > ttlMax
    · rw [if_pos hbig]
      refine iff_of_false (by decide) (Int.not_le.2 (Int.lt_trans ?_ hbig))
      decide
    · rw [if_neg hbig]
  unfold honouredTtl
  dsimp only
  rw [hcap]
  by_cases hhonours : Honours conf
  · rw [hhonours.1, hhonours.2, hstated hhonours]
    exact iff_of_true le_rfl (Or.inl hhonours)
  · have hnot : ¬(conf.honorCc && !conf.ignoreCc && decide (resp.upstreamTtl ≥ 0)) = true := by
      intro h
      rw [Bool.and_eq_true, Bool.and_eq_true, Bool.not_eq_true'] at h
      exact hhonours h.1
    rw [if_neg hnot]
    exact (or_iff_right hhonours).symm

/-- A window that is written is a deadline unless it is zero. -/
theorem deadline_zero_iff {now window : Time} (hnow : 0 ≤ now) (hwindow : 0 ≤ window) :
    (if window ≠ 0 then now + window else 0) = 0 ↔ window = 0 := by
  by_cases hzero : window = 0
  · rw [hzero]
    exact iff_of_true rfl rfl
  · rw [if_pos hzero]
    have hpos : 0 < window := lt_of_le_of_ne hwindow (Ne.symm hzero)
    exact iff_of_false (Int.ne_of_gt (Int.add_pos_of_nonneg_of_pos hnow hpos)) hzero

theorem forever_iff {z : Zone} {key : KeyHash} {c : Shm.Core} (h : view z key = some c) :
    Forever z key ↔ c.staleUntil = 0 := by
  constructor
  · rintro ⟨c', hc', hzero⟩
    rw [h] at hc'
    rwa [Option.some.inj hc']
  · exact fun hzero => ⟨c, h, hzero⟩

theorem staleTtl_eq_zero_iff {ttl : Time} {staleMult : ℤ} (hmult : 1 ≤ staleMult)
    (hle : ttl ≤ ttlMax) : staleTtl ttl staleMult = 0 ↔ ttl ≤ 0 := by
  by_cases hpos : 0 < ttl
  · have hge := staleTtl_ge hpos hle hmult
    exact iff_of_false (Int.ne_of_gt (Int.lt_of_lt_of_le hpos hge)) (Int.not_le.2 hpos)
  · refine iff_of_true ?_ (Int.not_lt.1 hpos)
    rw [staleTtl, if_pos (Int.not_lt.1 hpos)]

/-- The windows of a body have a zero stale window when the lifetime is zero. -/
theorem WindowRules.stale_zero_iff {conf : CaptureConf} {resp : OriginResponse} {w : Windows}
    (h : WindowRules conf resp w) : w.staleWindow = 0 ↔ w.ttl ≤ 0 := by
  rcases Int.lt_or_eq_of_le h.ttl.1 with hpos | hzero
  · have hge := (h.stale hpos).1
    exact iff_of_false (Int.ne_of_gt (Int.lt_of_lt_of_le hpos hge)) (Int.not_le.2 hpos)
  · exact iff_of_true (h.zero hzero.symm).1 (Int.le_of_eq hzero.symm)

section Feeding

variable {http : TimeParser} {digest : Bytes → KeyHash} {crc : KeyHash → UInt32} {rb : Rbtree}
  {conf : CaptureConf} {pconf : PolicyConf} {held : List BlobId} {z z' : Zone} {now : Time}
  {key : KeyHash}

/-- A stored body has no deadline exactly when its lifetime is zero. -/
theorem stored_forever_iff (hmult : 1 ≤ conf.staleMult) (hnow : 0 ≤ now)
    (hz : Shm.Wf held [] [] [] [] z) {resp : OriginResponse} {w : Windows}
    (hw : bodyFilterWindows conf resp = some w) {hash : UInt32} {status : ℕ} {blob : Bytes}
    {wanted : Bool} (hok : (bodyFilterStore rb z key hash now status blob w wanted).2.1 = .ok) :
    Forever (bodyFilterStore rb z key hash now status blob w wanted).1 key ↔
      honouredTtl conf resp (statusTtl conf resp.status) ≤ 0 := by
  have hrules := bodyFilterWindows_rules hmult hw
  obtain ⟨-, -, heffect⟩ := bodyFilterStore_spec rb hz key hash now status blob w wanted
  rcases heffect with ⟨hrefused, -⟩ | ⟨-, b, -, -, hview⟩
  · exact absurd hok hrefused
  · have httl : w.ttl = honouredTtl conf resp (statusTtl conf resp.status) := by
      obtain ⟨hown, hwin⟩ := bodyFilterWindows_some hw
      rcases Int.lt_or_eq_of_le (honouredTtl_nonneg conf resp hown) with hpos | hzero
      · by_cases hsoft : conf.ignoreCc = true ∨ resp.mustRevalidate = false
        · rw [hwin, windowsFor_soft hpos hsoft]
        · obtain ⟨hcc, hmust⟩ := not_or.1 hsoft
          rw [hwin, windowsFor_must hpos (Bool.eq_false_iff.2 hcc) (Bool.of_not_eq_false hmust)]
      · rw [hwin, ← hzero, windowsFor_zero]
    rw [forever_iff hview, ← httl, ← hrules.stale_zero_iff]
    exact deadline_zero_iff hnow (bodyFilterWindows_fit hw).staleWindow.1

/-- A freshened entry has no deadline exactly when its lifetime is not positive. -/
theorem freshened_forever_iff (hmult : 1 ≤ conf.staleMult) (hnow : 0 ≤ now)
    (hz : Shm.Wf held [] [] [] [] z) {r : Request} {ctx : CaptureCtx} {resp : OriginResponse}
    (hok : (headerFilterFreshen304 digest conf z now r ctx resp).2 = .ok) :
    Forever (headerFilterFreshen304 digest conf z now r ctx resp).1 (freshenKey digest conf r ctx) ↔
      honouredTtl conf resp conf.valid ≤ 0 := by
  obtain ⟨-, -, heffect⟩ := hz.freshen (freshenKey digest conf r ctx) now (freshenTtl conf resp)
    (staleTtl (freshenTtl conf resp) conf.staleMult)
  rcases heffect with ⟨hrefused, -⟩ | ⟨-, c, -, -, hview⟩
  · have hdeclined : (headerFilterFreshen304 digest conf z now r ctx resp).2 = .declined := hrefused
    rw [hdeclined] at hok
    cases hok
  · rw [← staleTtl_eq_zero_iff hmult (honouredTtl_le conf resp conf.valid)]
    exact (forever_iff hview).trans (deadline_zero_iff hnow (staleTtl_nonneg _ _))

/-- What a response on one of the paths leaves: an entry without a deadline exactly when the
lifetime that was taken is not positive. -/
theorem Feed.run_forever_iff (hmult : 1 ≤ conf.staleMult) (hnow : 0 ≤ now)
    (hz : Shm.Wf held [] [] [] [] z) {feed : Feed}
    (h : feed.run http digest crc rb conf pconf z now = some (key, z')) :
    ∃ resp : OriginResponse, (Honours conf → resp.upstreamTtl = feed.stated http pconf now) ∧
      (Forever z' key ↔ honouredTtl conf resp (feed.own conf) ≤ 0) := by
  cases feed with
  | body r ctx seen authorization status headers report captured storeKey wanted =>
    unfold Feed.run at h
    dsimp only at h
    split at h
    · cases hw : bodyFilterWindows conf (observe http now conf pconf authorization status
          (captureHeaders headers) report) with
      | none =>
        rw [hw] at h
        cases h
      | some w =>
        rw [hw] at h
        dsimp only at h
        cases hblob : captureBlob conf now status captured w with
        | none =>
          rw [hblob] at h
          cases h
        | some blob =>
          rw [hblob] at h
          dsimp only at h
          split_ifs at h with hok
          obtain ⟨rfl, rfl⟩ := Prod.mk.inj (Option.some.inj h)
          refine ⟨_, fun hhonours => ?_, stored_forever_iff hmult hnow hz hw hok⟩
          show (responsePolicy http now { pconf with ignoreCc := conf.ignoreCc } authorization
            (captureHeaders headers)).upstreamTtl = _
          rw [responsePolicy_captureHeaders, hhonours.2]
          rfl
    · cases h
  | notModified r ctx authorization headers report =>
    unfold Feed.run at h
    dsimp only at h
    split at h
    · split_ifs at h with hok
      obtain ⟨rfl, rfl⟩ := Prod.mk.inj (Option.some.inj h)
      exact ⟨_, fun _ => rfl, freshened_forever_iff hmult hnow hz hok⟩
    · cases h

end Feeding

/-- **The freshness windows.**  Their arithmetic is sound everywhere, and an entry whose
origin states a zero lifetime ends up without a deadline exactly where the location takes
that lifetime, or has itself no positive one. -/
theorem freshness_windows (http : TimeParser) (digest : Bytes → KeyHash) (crc : KeyHash → UInt32)
    (rb : Rbtree) {conf : CaptureConf} (pconf : PolicyConf) (hmult : 1 ≤ conf.staleMult)
    {keep : KeepStaleArg} (hkeep : conf.keepStale = keepStaleConf keep) {now : Time}
    (hnow : 0 ≤ now ∧ now ≤ 2 ^ 62) {held : List BlobId} {z : Zone}
    (hz : Shm.Wf held [] [] [] [] z) :
    WindowArithmetic http conf pconf now ∧
      ∀ (feed : Feed) (key : KeyHash) (z' : Zone),
        feed.run http digest crc rb conf pconf z now = some (key, z') →
        ((feed.stated http pconf now = 0 → ¬ Forever z' key) ↔
          ¬ (feed.stated http pconf now = 0 ∧ (Honours conf ∨ feed.own conf ≤ 0))) := by
  refine ⟨windowArithmetic http pconf hmult hkeep hnow, fun feed key z' hrun => ?_⟩
  obtain ⟨resp, hstated, hforever⟩ := Feed.run_forever_iff hmult hnow.1 hz hrun
  rw [not_and]
  refine imp_congr_right fun hzero => not_congr ?_
  rw [hforever]
  exact honouredTtl_nonpos_iff (fun hhonours => (hstated hhonours).trans hzero) _

/-! ## A 304 that says `max-age=0` -/

/-- `"Thu, 01 Jan 1970 00:00:00 GMT"`. -/
def epochDate : Bytes :=
  lit ['T', 'h', 'u', ',', ' ', '0', '1', ' ', 'J', 'a', 'n', ' ', '1', '9', '7', '0', ' ', '0', '0',
    ':', '0', '0', ':', '0', '0', ' ', 'G', 'M', 'T']

/-- A parser that knows that date. -/
def epochParser : TimeParser where
  parse b := if b = epochDate then some 0 else none
  range b t h := by
    split_ifs at h with hdate
    obtain rfl := Option.some.inj h
    decide

/-- `plainConf` where the origin's lifetimes are taken. -/
def honouringConf : CaptureConf := { plainConf with honorCc := true }

/-- No header is required and no cookie ignored. -/
def plainPolicy : PolicyConf :=
  { requireHeader := [], ignoreSetCookie := [], keyCookies := [], hasBackend := false,
    ignoreCc := false }

/-- A zone with one body, stored at 1000 under the key of `GET /`. -/
def pageZone : Zone :=
  (Shm.store Shm.Rbtree.unbalanced (Shm.blankZone some 0) (lengthDigest [47]) 0 1000 [33] 60 240
    false).1

theorem pageZone_wf : Shm.Wf [] [] [] [] [] pageZone := by
  have h := (Shm.Wf.blankZone some 0).store Shm.Rbtree.unbalanced (lengthDigest [47]) 0 1000 [33]
    60 240 false
  exact h.1

/-- The origin confirms the page and states `control` for its lifetime. -/
def confirmed (control : Bytes) : Feed :=
  .notModified (conditionalGet oldTag).client ((conditionalGet oldTag).ctx lengthDigest honouringConf)
    false [⟨1, cacheControl, control⟩] ⟨false, false, true, false, false⟩

/-- `"max-age=0"`. -/
def maxAgeZero : Bytes := maxAge ++ lit ['=', '0']

/-- That 304 as the filter reads it. -/
def confirmedResponse : OriginResponse :=
  observe304 epochParser 1100 honouringConf plainPolicy false [⟨1, cacheControl, maxAgeZero⟩]
    ⟨false, false, true, false, false⟩

/-- The zone after it. -/
def confirmedZone : Zone × Rc :=
  headerFilterFreshen304 lengthDigest honouringConf pageZone 1100 (conditionalGet oldTag).client
    ((conditionalGet oldTag).ctx lengthDigest honouringConf) confirmedResponse

theorem freshness_windows_confirmed :
    WindowArithmetic epochParser honouringConf plainPolicy 1100 ∧
      ∀ (key : KeyHash) (z' : Zone),
        (confirmed maxAgeZero).run epochParser lengthDigest (fun _ => 0) Shm.Rbtree.unbalanced
          honouringConf plainPolicy pageZone 1100 = some (key, z') →
        (((confirmed maxAgeZero).stated epochParser plainPolicy 1100 = 0 → ¬ Forever z' key) ↔
          ¬ ((confirmed maxAgeZero).stated epochParser plainPolicy 1100 = 0 ∧
            (Honours honouringConf ∨ (confirmed maxAgeZero).own honouringConf ≤ 0))) := by
  have h := freshness_windows epochParser lengthDigest (fun _ => 0) Shm.Rbtree.unbalanced
    plainPolicy (show 1 ≤ honouringConf.staleMult by decide)
    (show honouringConf.keepStale = keepStaleConf .off from rfl)
    (show (0 : Time) ≤ 1100 ∧ (1100 : Time) ≤ 2 ^ 62 by decide) pageZone_wf
  exact ⟨h.1, h.2 (confirmed maxAgeZero)⟩

/-- **A 304 with `max-age=0` makes the entry eternal.** -/
theorem confirmed_forever :
    ¬ ∀ (http : TimeParser) (digest : Bytes → KeyHash) (crc : KeyHash → UInt32) (rb : Rbtree)
      (conf : CaptureConf) (pconf : PolicyConf) (keep : KeepStaleArg) (now : Time)
      (held : List BlobId) (z : Zone), 1 ≤ conf.staleMult →
      conf.keepStale = keepStaleConf keep → 0 ≤ now ∧ now ≤ 2 ^ 62 →
      Shm.Wf held [] [] [] [] z →
      WindowArithmetic http conf pconf now ∧
        ∀ (feed : Feed) (key : KeyHash) (z' : Zone),
          feed.run http digest crc rb conf pconf z now = some (key, z') →
          feed.stated http pconf now = 0 → ¬ Forever z' key := by
  intro hall
  have hpage := (hall epochParser lengthDigest (fun _ => 0) Shm.Rbtree.unbalanced honouringConf
    plainPolicy .off 1100 [] pageZone (by decide) rfl (by decide) pageZone_wf).2
    (confirmed maxAgeZero)
  have hbranch : captureBranch honouringConf (conditionalGet oldTag).client
      ((conditionalGet oldTag).ctx lengthDigest honouringConf) confirmedResponse = .freshen := by
    decide +kernel
  have hok : confirmedZone.2 = .ok := by decide +kernel
  have hrun : (confirmed maxAgeZero).run epochParser lengthDigest (fun _ => 0)
      Shm.Rbtree.unbalanced honouringConf plainPolicy pageZone 1100 =
      some (freshenKey lengthDigest honouringConf (conditionalGet oldTag).client
        ((conditionalGet oldTag).ctx lengthDigest honouringConf), confirmedZone.1) := by
    unfold Feed.run confirmed
    dsimp only
    rw [show observe304 epochParser 1100 honouringConf plainPolicy false
      [⟨1, cacheControl, maxAgeZero⟩] ⟨false, false, true, false, false⟩ = confirmedResponse from rfl,
      hbranch]
    exact if_pos hok
  exact hpage _ _ hrun (by decide +kernel)
    ((freshened_forever_iff (by decide) (by decide) pageZone_wf hok).2 (by decide +kernel))

end Http
end CacheTurbo
