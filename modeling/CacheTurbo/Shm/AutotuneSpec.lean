/-
# Windows of the autotune

What a recompute publishes depends on one window alone: what was counted between two recomputes.
`autotune_windows` says so for any number of workers in any interleaving.  The windows tile what
was counted, although the counters wrap and others count between the five reads of a recompute;
each verdict is that of its own window; beta and the load factor are those of the last window
that had enough data, once the mutex is free, and are within bounds at any time; and no two
recomputes that were due fall within one interval.
-/

import CacheTurbo.Shm.Autotune
import Mathlib.Algebra.Group.Nat.Defs

namespace CacheTurbo
namespace Shm
namespace Autotune

/-! ## The verdict of a window -/

/-- **What autotune is for**: a window with enough data is under load when regenerating is
expensive on average, or moderately so and the hit rate is low, and the misses are not mostly
refreshes.  Then beta and the load factor grow with the cost. -/
def loadVerdict (d : Figure → ℕ) : Option (ℕ × ℕ) :=
  let cost := d .costSum / d .costCount
  if d .hits + d .misses < 100 ∨ d .costCount = 0 then none
  else if (30 ≤ cost ∧ 100 ≤ d .misses ∨ 10 ≤ cost ∧ 100 * d .hits < 95 * (d .hits + d .misses)) ∧
      d .refreshes ≤ 2 * d .misses then
    some (min betaMax (50 * cost), min atLoadMax (100 * cost))
  else some (0, atLoadBase)

/-- A word, cast and brought within bounds. -/
theorem clampInt_bounds {low high : ℕ} (h : low ≤ high) (x : BitVec 64) :
    low ≤ clampInt low high x ∧ clampInt low high x ≤ high := by
  unfold clampInt
  have hx : x.toInt = x.toNat ∨ x.toInt < 0 := by
    rw [BitVec.toInt_eq_toNat_cond]
    split_ifs <;> omega
  split_ifs <;> omega

theorem clampInt_ofNat {low high n : ℕ} (hn : n < 2 ^ 63) :
    clampInt low high (BitVec.ofNat 64 n) =
      if n < low then low else if n > high then high else n := by
  have hnat : (BitVec.ofNat 64 n).toNat = n := by
    rw [BitVec.toNat_ofNat]
    omega
  have hint : (BitVec.ofNat 64 n).toInt = n := by
    rw [BitVec.toInt_eq_toNat_cond, hnat]
    split_ifs <;> omega
  unfold clampInt
  rw [hint, hnat]
  split_ifs <;> omega

/-- Beta is cleared, or within its bounds. -/
def BetaInBounds (beta : ℕ) : Prop := beta = 0 ∨ betaMin ≤ beta ∧ beta ≤ betaMax

/-- The load factor is not set, or within its bounds. -/
def LoadInBounds (load : ℕ) : Prop := load = 0 ∨ atLoadBase ≤ load ∧ load ≤ atLoadMax

/-- **A verdict is within bounds**, whatever has wrapped. -/
theorem autotuneVerdict_bounds {d : Figures} {beta load : ℕ}
    (h : autotuneVerdict d = some (beta, load)) : BetaInBounds beta ∧ LoadInBounds load := by
  unfold autotuneVerdict at h
  dsimp only at h
  split_ifs at h
  · obtain ⟨rfl, rfl⟩ := Prod.mk.inj (Option.some.inj h)
    refine ⟨Or.inr (clampInt_bounds ?_ _), Or.inr (clampInt_bounds ?_ _)⟩ <;> decide
  · obtain ⟨rfl, rfl⟩ := Prod.mk.inj (Option.some.inj h)
    exact ⟨Or.inl rfl, Or.inr (by decide)⟩

/-! Words that do not overflow. -/

theorem ofNat_lt_ofNat {a b : ℕ} (ha : a < 2 ^ 64) (hb : b < 2 ^ 64) :
    BitVec.ofNat 64 a < BitVec.ofNat 64 b ↔ a < b := by
  rw [BitVec.lt_def, BitVec.toNat_ofNat, BitVec.toNat_ofNat, Nat.mod_eq_of_lt ha,
    Nat.mod_eq_of_lt hb]

theorem ofNat_le_ofNat {a b : ℕ} (ha : a < 2 ^ 64) (hb : b < 2 ^ 64) :
    BitVec.ofNat 64 a ≤ BitVec.ofNat 64 b ↔ a ≤ b := by
  rw [BitVec.le_def, BitVec.toNat_ofNat, BitVec.toNat_ofNat, Nat.mod_eq_of_lt ha,
    Nat.mod_eq_of_lt hb]

theorem ofNat_inj {a b : ℕ} (ha : a < 2 ^ 64) (hb : b < 2 ^ 64) :
    BitVec.ofNat 64 a = BitVec.ofNat 64 b ↔ a = b := by
  rw [← BitVec.toNat_inj, BitVec.toNat_ofNat, BitVec.toNat_ofNat, Nat.mod_eq_of_lt ha,
    Nat.mod_eq_of_lt hb]

theorem ofNat_div_ofNat {a b : ℕ} (ha : a < 2 ^ 64) (hb : b < 2 ^ 64) :
    BitVec.ofNat 64 a / BitVec.ofNat 64 b = BitVec.ofNat 64 (a / b) := by
  have hdiv := Nat.div_le_self a b
  rw [← BitVec.toNat_inj, BitVec.toNat_udiv, BitVec.toNat_ofNat, BitVec.toNat_ofNat,
    BitVec.toNat_ofNat, Nat.mod_eq_of_lt ha, Nat.mod_eq_of_lt hb, Nat.mod_eq_of_lt (by omega)]

theorem qualifies_ofNat {d : Figure → ℕ} (h : ∀ f, d f < 2 ^ 50) {cost : ℕ}
    (hcost : cost < 2 ^ 50) :
    qualifies (fun f => BitVec.ofNat 64 (d f)) (BitVec.ofNat 64 cost) = true ↔
      (30 ≤ cost ∧ 100 ≤ d .misses ∨ 10 ≤ cost ∧ 100 * d .hits < 95 * (d .hits + d .misses)) ∧
        d .refreshes ≤ 2 * d .misses := by
  have hhits := h .hits
  have hmisses := h .misses
  have hrefreshes := h .refreshes
  have hrate : BitVec.ofNat 64 (d .hits) * 100#64 <
      (BitVec.ofNat 64 (d .hits) + BitVec.ofNat 64 (d .misses)) * 95#64 ↔
      d .hits * 100 < (d .hits + d .misses) * 95 := by
    rw [← BitVec.ofNat_add, ← BitVec.ofNat_mul, ← BitVec.ofNat_mul]
    exact ofNat_lt_ofNat (by omega) (by omega)
  have hchurn : BitVec.ofNat 64 (d .misses) * 2#64 < BitVec.ofNat 64 (d .refreshes) ↔
      d .misses * 2 < d .refreshes := by
    rw [← BitVec.ofNat_mul]
    exact ofNat_lt_ofNat (by omega) (by omega)
  have hstrong := ofNat_le_ofNat (a := 30) (b := cost) (by omega) (by omega)
  have hmoderate := ofNat_le_ofNat (a := 10) (b := cost) (by omega) (by omega)
  have hfloor := ofNat_le_ofNat (a := 100) (b := d .misses) (by omega) (by omega)
  unfold qualifies
  simp only [ge_iff_le, gt_iff_lt, hrate, hchurn, hstrong, hmoderate, hfloor, Bool.and_eq_true,
    Bool.not_eq_true', decide_eq_false_iff_not, Bool.ite_eq_true_distrib, decide_eq_true_eq]
  split_ifs with hs
  · simp only [true_and, Nat.not_lt]
    omega
  · omega

/-- The difference of two counters that wrap is that of what they count. -/
theorem ofNat_sub_of_le {a b : ℕ} (h : b ≤ a) :
    BitVec.ofNat 64 a - BitVec.ofNat 64 b = BitVec.ofNat 64 (a - b) := by
  have hsplit : BitVec.ofNat 64 a = BitVec.ofNat 64 (a - b) + BitVec.ofNat 64 b := by
    rw [← BitVec.ofNat_add, Nat.sub_add_cancel h]
  rw [hsplit, BitVec.add_sub_cancel]

/-- **The verdict is the one it should be** for a window in which nothing overflows. -/
theorem autotuneVerdict_ofNat {d : Figure → ℕ} (h : ∀ f, d f < 2 ^ 50) :
    autotuneVerdict (fun f => BitVec.ofNat 64 (d f)) = loadVerdict d := by
  have hhits := h .hits
  have hmisses := h .misses
  have hsum := h .costSum
  have hcount := h .costCount
  have hle : d .costSum / d .costCount ≤ d .costSum := Nat.div_le_self _ _
  have hcost : d .costSum / d .costCount < 2 ^ 50 := by omega
  have hqualifies := qualifies_ofNat h hcost
  unfold autotuneVerdict loadVerdict
  dsimp only
  rw [ofNat_div_ofNat (by omega) (by omega)]
  generalize d .costSum / d .costCount = cost at hle hqualifies
  rw [← BitVec.ofNat_add, ← BitVec.ofNat_mul, ← BitVec.ofNat_mul,
    ofNat_div_ofNat (by omega) (by omega), clampInt_ofNat (by omega), clampInt_ofNat (by omega)]
  simp only [ofNat_lt_ofNat (show d .hits + d .misses < 2 ^ 64 by omega)
    (show 100 < 2 ^ 64 by omega), ofNat_inj (show d .costCount < 2 ^ 64 by omega)
    (show 0 < 2 ^ 64 by omega)]
  by_cases hdata : d .hits + d .misses < 100 ∨ d .costCount = 0
  · rw [if_pos hdata, if_pos hdata]
  · rw [if_neg hdata, if_neg hdata]
    by_cases hq : qualifies (fun f => BitVec.ofNat 64 (d f)) (BitVec.ofNat 64 cost) = true
    · rw [if_pos hq, if_pos (hqualifies.1 hq)]
      have hten : 10 ≤ cost := by
        rcases (hqualifies.1 hq).1 with hs | hm <;> omega
      have hbeta : (if cost * 1000 / 20 < betaMin then betaMin else if cost * 1000 / 20 > betaMax
          then betaMax else cost * 1000 / 20) = min betaMax (50 * cost) := by
        unfold betaMin betaMax
        split_ifs <;> omega
      have hload : (if cost * 100 < atLoadBase then atLoadBase else if cost * 100 > atLoadMax
          then atLoadMax else cost * 100) = min atLoadMax (100 * cost) := by
        unfold atLoadBase atLoadMax
        split_ifs <;> omega
      rw [hbeta, hload]
    · rw [if_neg hq, if_neg fun hno => hq (hqualifies.2 hno)]

/-! ## The invariant -/

/-- Each window begins where the one before it ended. -/
def Tiles : List Window → Prop
  | [] => True
  | w :: rest => w.start = (rest.head?.map Window.stop).getD (fun _ => 0) ∧
      (∀ f, w.start f ≤ w.stop f) ∧ Tiles rest

/-- What the last window with enough data has published. -/
def published (windows : List Window) : ℕ × ℕ := (windows.findSome? Window.verdict).getD (0, 0)

/-- **The invariant of the zone.**  The counters are those of what was counted, cut to 64 bits,
and the snapshots those of the end of the last window. -/
structure Inv (z : Shctx) : Prop where
  figure : ∀ f, z.figure f = BitVec.ofNat 64 (z.counted f)
  snap : ∀ f, z.snap f = BitVec.ofNat 64 (z.stop f)
  stop : ∀ f, z.stop f ≤ z.counted f
  tiles : Tiles z.windows
  verdict : ∀ w ∈ z.windows,
    w.verdict = autotuneVerdict fun f => BitVec.ofNat 64 (w.stop f - w.start f)
  beta : BetaInBounds z.autotunedBeta
  load : LoadInBounds z.autotunedLoad
  published : z.locked = false → (z.autotunedBeta, z.autotunedLoad) = published z.windows
  next : ∀ c ∈ z.claims, c.1 + c.2 ≤ z.autotuneNext
  spaced : z.claims.Pairwise fun later earlier => earlier.1 + earlier.2 ≤ later.1

/-- The caller has the mutex. -/
def AtFrame.inside : AtFrame → Bool
  | .checking _ _ | .reading _ _ _ | .publishing _ _ | .publishingLoad _ | .unlocking => true
  | .idle | .counting | .due _ _ | .forcing => false

/-- What a caller knows at its place. -/
def Own (z : Shctx) : AtFrame → Prop
  | .idle | .counting | .forcing => True
  | .due interval _ => 0 < interval
  | .checking interval _ => z.locked = true ∧ 0 < interval ∧
      (z.autotunedBeta, z.autotunedLoad) = published z.windows
  | .reading left seen counted => z.locked = true ∧
      (z.autotunedBeta, z.autotunedLoad) = published z.windows ∧
      ∀ f ∉ left, seen f = BitVec.ofNat 64 (counted f) ∧ z.stop f ≤ counted f ∧
        counted f ≤ z.counted f
  | .publishing beta load => z.locked = true ∧ (beta, load) = published z.windows ∧
      BetaInBounds beta ∧ LoadInBounds load
  | .publishingLoad load => z.locked = true ∧ (z.autotunedBeta, load) = published z.windows ∧
      LoadInBounds load
  | .unlocking => z.locked = true ∧ (z.autotunedBeta, z.autotunedLoad) = published z.windows

/-- Two callers do not have the mutex at once. -/
def Apart (f f' : AtFrame) : Prop := f.inside = true → f'.inside = false

theorem Own.locked {z : Shctx} {f : AtFrame} (h : Own z f) (hin : f.inside = true) :
    z.locked = true := by
  cases f with
  | idle | counting | due | forcing => cases hin
  | checking | reading | publishing | publishingLoad | unlocking => exact h.1

/-- What a caller without the mutex knows is its own. -/
theorem Own.of_outside {z z' : Shctx} {f : AtFrame} (h : Own z f) (hout : f.inside = false) :
    Own z' f := by
  cases f with
  | idle | counting | forcing => trivial
  | due interval now => exact h
  | checking | reading | publishing | publishingLoad | unlocking => cases hout

/-- What is counted meanwhile is no matter to the holder of the mutex. -/
theorem Own.add {z : Shctx} {f : AtFrame} (h : Own z f) (g : Figure) (n : ℕ) :
    Own (z.add g n) f := by
  cases f with
  | reading left seen counted =>
    obtain ⟨hlocked, hpub, hseen⟩ := h
    refine ⟨hlocked, hpub, fun f hf => ?_⟩
    obtain ⟨hs, hstop, hle⟩ := hseen f hf
    refine ⟨hs, hstop, Nat.le_trans hle ?_⟩
    by_cases hfg : f = g
    · subst hfg
      simp [Shctx.add]
    · simp [Shctx.add, Function.update_of_ne hfg]
  | idle | counting | forcing | due | checking | publishing | publishingLoad | unlocking => exact h

theorem Inv.add {z : Shctx} (h : Inv z) (g : Figure) (n : ℕ) : Inv (z.add g n) := by
  refine ⟨fun f => ?_, h.snap, fun f => Nat.le_trans (h.stop f) ?_, h.tiles, h.verdict, h.beta,
    h.load, h.published, h.next, h.spaced⟩
  · by_cases hfg : f = g
    · subst hfg
      simp [Shctx.add, h.figure f, BitVec.ofNat_add]
    · simp [Shctx.add, Function.update_of_ne hfg, h.figure f]
  · by_cases hfg : f = g
    · subst hfg
      simp [Shctx.add]
    · simp [Shctx.add, Function.update_of_ne hfg]

/-- The windows tile, one more. -/
theorem Inv.advance {z : Shctx} (h : Inv z) {seen : Figures} {counted : Figure → ℕ}
    (hown : Own z (.reading [] seen counted)) :
    Inv (z.advance seen counted).1 ∧ Own (z.advance seen counted).1 (z.advance seen counted).2 := by
  obtain ⟨hlocked, hpub, hseen⟩ := hown
  have hverdict : autotuneVerdict (fun f => seen f - z.snap f) =
      autotuneVerdict fun f => BitVec.ofNat 64 (counted f - z.stop f) := by
    congr 1
    funext f
    obtain ⟨hs, hle, -⟩ := hseen f List.not_mem_nil
    rw [hs, h.snap f, ofNat_sub_of_le hle]
  have htiles : ∀ v, Tiles (⟨z.stop, counted, v⟩ :: z.windows) := fun v =>
    ⟨rfl, fun f => (hseen f List.not_mem_nil).2.1, h.tiles⟩
  have hverdicts : ∀ w ∈ ⟨z.stop, counted, autotuneVerdict fun f => seen f - z.snap f⟩ :: z.windows,
      w.verdict = autotuneVerdict fun f => BitVec.ofNat 64 (w.stop f - w.start f) := by
    intro w hw
    rcases List.mem_cons.1 hw with rfl | hw
    · exact hverdict
    · exact h.verdict w hw
  unfold Shctx.advance
  dsimp only
  cases hv : autotuneVerdict fun f => seen f - z.snap f with
  | none =>
    rw [hv] at hverdicts
    refine ⟨⟨h.figure, fun f => (hseen f List.not_mem_nil).1,
      fun f => (hseen f List.not_mem_nil).2.2, htiles _, hverdicts, h.beta, h.load, ?_, h.next,
      h.spaced⟩, hlocked, hpub⟩
    exact fun _ => hpub
  | some p =>
    obtain ⟨beta, load⟩ := p
    rw [hv] at hverdicts
    refine ⟨⟨h.figure, fun f => (hseen f List.not_mem_nil).1,
      fun f => (hseen f List.not_mem_nil).2.2, htiles _, hverdicts, h.beta, h.load, ?_, h.next,
      h.spaced⟩, hlocked, rfl, autotuneVerdict_bounds hv⟩
    intro hfree
    have hlocked' := hlocked.symm.trans hfree
    cases hlocked'

/-- While the mutex is held nothing need be published. -/
theorem Inv.hold {z z' : Shctx} (h : Inv z) (hlocked : z'.locked = true)
    (hfigure : z'.figure = z.figure) (hcounted : z'.counted = z.counted) (hsnap : z'.snap = z.snap)
    (hwindows : z'.windows = z.windows) (hbeta : BetaInBounds z'.autotunedBeta)
    (hload : LoadInBounds z'.autotunedLoad) (hnext : ∀ c ∈ z'.claims, c.1 + c.2 ≤ z'.autotuneNext)
    (hspaced : z'.claims.Pairwise fun later earlier => earlier.1 + earlier.2 ≤ later.1) :
    Inv z' := by
  have hstop : z'.stop = z.stop := by rw [Shctx.stop, hwindows, ← Shctx.stop]
  refine ⟨fun f => ?_, fun f => ?_, fun f => ?_, hwindows ▸ h.tiles, hwindows ▸ h.verdict, hbeta,
    hload, fun hfree => ?_, hnext, hspaced⟩
  · rw [hfigure, hcounted, h.figure f]
  · rw [hsnap, hstop, h.snap f]
  · rw [hstop, hcounted]
    exact h.stop f
  · rw [hlocked] at hfree
    cases hfree

/-- **A step keeps the invariant**, and leaves the caller with what it knows at its next place. -/
theorem Inv.step {z : Shctx} (h : Inv z) (input : Time × AtCall) {f : AtFrame} (hown : Own z f) :
    Inv (atNext input z f).1 ∧ Own (atNext input z f).1 (atNext input z f).2 := by
  cases f with
  | idle =>
    unfold atNext atBegin
    dsimp only
    split
    · exact ⟨h.add _ _, trivial⟩
    · exact ⟨h.add _ _, trivial⟩
    · exact ⟨h.add _ _, trivial⟩
    · exact ⟨h.add _ _, trivial⟩
    · rename_i interval _
      split_ifs with hdue hinterval
      · exact ⟨h, trivial⟩
      · exact ⟨h, show 0 < atInterval by decide⟩
      · exact ⟨h, Int.not_le.1 hinterval⟩
    · exact ⟨h, trivial⟩
  | counting => exact ⟨h.add _ _, trivial⟩
  | due interval now =>
    unfold atNext
    dsimp only
    split_ifs with hlocked
    · exact ⟨h, hown⟩
    · refine ⟨h.hold rfl rfl rfl rfl rfl h.beta h.load h.next h.spaced, rfl, hown, ?_⟩
      exact h.published (Bool.not_eq_true _ ▸ hlocked)
  | forcing =>
    unfold atNext
    dsimp only
    split_ifs with hlocked
    · exact ⟨h, trivial⟩
    · refine ⟨h.hold rfl rfl rfl rfl rfl h.beta h.load h.next h.spaced, rfl, ?_, fun f hf => ?_⟩
      · exact h.published (Bool.not_eq_true _ ▸ hlocked)
      · cases f <;> simp at hf
  | checking interval now =>
    obtain ⟨hlocked, hpos, hpub⟩ := hown
    unfold atNext
    dsimp only
    split_ifs with hdue
    · exact ⟨h, hlocked, hpub⟩
    · have hnow : z.autotuneNext ≤ now := Int.not_lt.1 hdue
      refine ⟨h.hold hlocked rfl rfl rfl rfl h.beta h.load ?_ ?_, hlocked, hpub, fun f hf => ?_⟩
      · intro c hc
        rcases List.mem_cons.1 hc with rfl | hc
        · exact Int.le_refl _
        · exact Int.le_trans (Int.le_trans (h.next c hc) hnow)
            (Int.le_add_of_nonneg_right (Int.le_of_lt hpos))
      · exact List.pairwise_cons.2 ⟨fun c hc => Int.le_trans (h.next c hc) hnow, h.spaced⟩
      · cases f <;> simp at hf
  | reading left seen counted =>
    cases left with
    | nil => exact h.advance hown
    | cons f left =>
      obtain ⟨hlocked, hpub, hseen⟩ := hown
      refine ⟨h, hlocked, hpub, fun g hg => ?_⟩
      by_cases hgf : g = f
      · subst hgf
        rw [Function.update_self, Function.update_self]
        exact ⟨h.figure g, h.stop g, Nat.le_refl _⟩
      · rw [Function.update_of_ne hgf, Function.update_of_ne hgf]
        exact hseen g fun hmem => (List.mem_cons.1 hmem).elim hgf hg
  | publishing beta load =>
    obtain ⟨hlocked, hpub, hbeta, hload⟩ := hown
    exact ⟨h.hold hlocked rfl rfl rfl rfl hbeta h.load h.next h.spaced, hlocked, hpub, hload⟩
  | publishingLoad load =>
    obtain ⟨hlocked, hpub, hload⟩ := hown
    exact ⟨h.hold hlocked rfl rfl rfl rfl h.beta hload h.next h.spaced, hlocked, hpub⟩
  | unlocking =>
    obtain ⟨hlocked, hpub⟩ := hown
    refine ⟨⟨h.figure, h.snap, h.stop, h.tiles, h.verdict, h.beta, h.load, fun _ => ?_, h.next,
      h.spaced⟩, trivial⟩
    exact hpub

/-- A caller that does not have the mutex changes no more than the counters, or takes it. -/
theorem next_outside (input : Time × AtCall) (z : Shctx) {f : AtFrame} (hout : f.inside = false) :
    ((atNext input z f).1 = z ∧ (atNext input z f).2.inside = false) ∨
      (∃ g n, (atNext input z f).1 = z.add g n ∧ (atNext input z f).2.inside = false) ∨
      z.locked = false := by
  cases f with
  | idle =>
    unfold atNext atBegin
    dsimp only
    split
    · exact Or.inr (Or.inl ⟨_, _, rfl, rfl⟩)
    · exact Or.inr (Or.inl ⟨_, _, rfl, rfl⟩)
    · exact Or.inr (Or.inl ⟨_, _, rfl, rfl⟩)
    · exact Or.inr (Or.inl ⟨_, _, rfl, rfl⟩)
    · split_ifs
      all_goals exact Or.inl ⟨rfl, rfl⟩
    · exact Or.inl ⟨rfl, rfl⟩
  | counting => exact Or.inr (Or.inl ⟨_, _, rfl, rfl⟩)
  | due | forcing =>
    unfold atNext
    dsimp only
    split_ifs with hlocked
    · exact Or.inl ⟨rfl, rfl⟩
    · exact Or.inr (Or.inr (Bool.not_eq_true _ ▸ hlocked))
  | checking | reading | publishing | publishingLoad | unlocking => cases hout

/-- **The invariant of the system**: one caller at most has the mutex. -/
def SystemInv (s : System) : Prop := s.Holds Inv (fun _ z f => Own z f) Apart

theorem SystemInv.step {s : System} (h : SystemInv s) (e : ℕ × Time × AtCall) :
    SystemInv (s.step atNext e) := by
  obtain ⟨hinv, hown⟩ := h.inv.step e.2 (h.own e.1)
  refine Threads.Holds.step_of_apart h hinv hown (fun i f hf happart => ?_)
    fun i f hf happ happ' => ?_
  · by_cases hin : f.inside = true
    · rcases next_outside e.2 s.shared (happart hin) with ⟨he, -⟩ | ⟨g, n, he, -⟩ | hfree
      · rw [he]
        exact hf
      · rw [he]
        exact hf.add g n
      · exact absurd ((hf.locked hin).symm.trans hfree) nofun
    · exact hf.of_outside (Bool.not_eq_true _ ▸ hin)
  · by_cases hmover : (s.frame e.1).inside = true
    · have hout := happ hmover
      exact ⟨fun _ => hout, fun hin => absurd (hin.symm.trans hout) nofun⟩
    · rcases next_outside e.2 s.shared (Bool.not_eq_true _ ▸ hmover) with ⟨-, hout⟩ |
        ⟨-, -, -, hout⟩ | hfree
      · exact ⟨fun hin => absurd (hin.symm.trans hout) nofun, fun _ => hout⟩
      · exact ⟨fun hin => absurd (hin.symm.trans hout) nofun, fun _ => hout⟩
      · have hout : f.inside = false := by
          by_contra hno
          exact absurd ((hf.locked (Bool.not_eq_false _ ▸ hno)).symm.trans hfree) nofun
        exact ⟨fun _ => hout, fun hin => absurd (hin.symm.trans hout) nofun⟩

/-! ## Runs -/

/-- What a zone has published, and what a location makes of it, is within bounds. -/
structure InBounds (z : Shctx) : Prop where
  beta : BetaInBounds z.autotunedBeta
  load : LoadInBounds z.autotunedLoad
  /-- With a verdict, the beta of a location is in the band of its preset. -/
  effectiveBeta : ∀ conf : Conf, effectiveBeta conf z = conf.beta ∨
    ((bands (conf.preset.getD .default)).betaMin : ℤ) ≤ effectiveBeta conf z ∧
      effectiveBeta conf z ≤ (bands (conf.preset.getD .default)).betaMax
  /-- Windows and locks are widened fourfold at most. -/
  effectiveLoad : ∀ conf : Conf, atLoadBase ≤ effectiveLoad conf z ∧
    effectiveLoad conf z ≤ atLoadMax

theorem inBounds {z : Shctx} (hbeta : BetaInBounds z.autotunedBeta)
    (hload : LoadInBounds z.autotunedLoad) : InBounds z := by
  refine ⟨hbeta, hload, fun conf => ?_, fun conf => ?_⟩
  · have hband : (bands (conf.preset.getD .default)).betaMin ≤
        (bands (conf.preset.getD .default)).betaMax := by
      cases conf.preset.getD .default <;> decide
    unfold Autotune.effectiveBeta
    dsimp only
    split_ifs <;> omega
  · unfold Autotune.effectiveLoad atLoadBase atLoadMax
    split_ifs <;> omega

/-- **What is published is the verdict of one window.**  For any number of workers, in any
interleaving of their reads, additions and stores: the windows tile what was counted; each has
the verdict of the figures that were counted in it, and the one it should have as long as it
counts less than `2 ^ 50` of each; what is published is within bounds at any time, and is that of
the last window with enough data whenever the mutex is free; and each recompute that was due is
an interval after every earlier one. -/
theorem autotune_windows (run : List (ℕ × Time × AtCall)) :
    let z := (Run.after (Threads.step atNext) System.init run).shared
    Tiles z.windows ∧ (∀ f, z.stop f ≤ z.counted f) ∧
      (∀ w ∈ z.windows,
        w.verdict = autotuneVerdict fun f => BitVec.ofNat 64 (w.stop f - w.start f)) ∧
      (∀ w ∈ z.windows, (∀ f, w.stop f - w.start f < 2 ^ 50) →
        w.verdict = loadVerdict fun f => w.stop f - w.start f) ∧
      InBounds z ∧
      (z.locked = false → (z.autotunedBeta, z.autotunedLoad) = published z.windows) ∧
      z.claims.Pairwise fun later earlier => earlier.1 + earlier.2 ≤ later.1 := by
  intro z
  have hstart : SystemInv System.init := by
    refine ⟨⟨fun _ => rfl, fun _ => rfl, fun _ => Nat.le_refl _, trivial, nofun, Or.inl rfl,
      Or.inl rfl, fun _ => rfl, nofun, List.Pairwise.nil⟩, fun _ => trivial, fun _ _ _ => nofun⟩
  have hs : SystemInv (Run.after (Threads.step atNext) System.init run) :=
    Run.after_invariant (fun _ e h => h.step e) hstart run
  obtain ⟨hinv, -, -⟩ := hs
  refine ⟨hinv.tiles, hinv.stop, hinv.verdict, fun w hw hsmall => ?_, inBounds hinv.beta hinv.load,
    hinv.published, hinv.spaced⟩
  rw [hinv.verdict w hw]
  exact autotuneVerdict_ofNat hsmall

end Autotune
end Shm
end CacheTurbo
