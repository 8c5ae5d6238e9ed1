/-
# The error of the frequency sketch

Two counters share a byte, so `sketch_inc` and `sketch_halve` are first shown to be what they
should be on single counters (`sketchGet_inc`, `sketchGet_halved`).  Then a bump is a bump of
the count-min sketch of `Lib.CountMin` over the counters of the array, followed by an aging of
one stripe where `sketch_ops` is up (`sketchGet_touch`), and a run of bumps is the run of
those events (`sketchTrace`).

`sketch_exact` puts together what follows: the estimate of a key is never below the least of
its own counts, and between two generations each counter is halved once.
-/

import CacheTurbo.Lib.CountMin
import CacheTurbo.Lib.Run
import CacheTurbo.Shm.Sketch

namespace CacheTurbo
namespace Shm

open CountMin

/-! ## Nibbles -/

/-- The counters of an array of bytes. -/
def IsBytes (counters : ℕ → ℕ) : Prop := ∀ n, counters n < 256

/-- One half of a byte: the high one for the odd counter, the low one for the even. -/
def nibble (idx b : ℕ) : ℕ := if idx % 2 = 1 then b / 16 else b % 16

theorem sketchGet_eq (counters : ℕ → ℕ) (idx : ℕ) :
    sketchGet counters idx = nibble idx (counters (idx >>> 1)) := by
  unfold sketchGet nibble
  rw [Nat.and_one_is_mod]
  exact if_congr Iff.rfl (Nat.shiftRight_eq_div_pow _ 4) (Nat.and_two_pow_sub_one_eq_mod _ 4)

/-- One byte is written, and of its halves only the one of `idx` changes. -/
theorem sketchGet_update (counters : ℕ → ℕ) {idx v n : ℕ} (hself : nibble idx v = n)
    (hother : nibble (idx + 1) v = nibble (idx + 1) (counters (idx >>> 1))) :
    sketchGet (Function.update counters (idx >>> 1) v) =
      Function.update (sketchGet counters) idx n := by
  funext j
  rw [sketchGet_eq]
  by_cases hj : j = idx
  · rw [hj, Function.update_self, Function.update_self, hself]
  · rw [Function.update_of_ne hj, sketchGet_eq]
    by_cases hbyte : j >>> 1 = idx >>> 1
    · rw [hbyte, Function.update_self]
      -- two counters of one byte are of different parity
      have hparity : j % 2 = (idx + 1) % 2 := by
        rw [Nat.shiftRight_eq_div_pow, Nat.shiftRight_eq_div_pow] at hbyte
        omega
      unfold nibble at hother ⊢
      rwa [hparity]
    · rw [Function.update_of_ne hbyte]

theorem IsBytes.update {counters : ℕ → ℕ} (h : IsBytes counters) {byte v : ℕ} (hv : v < 256) :
    IsBytes (Function.update counters byte v) := by
  intro n
  by_cases hn : n = byte
  · rwa [hn, Function.update_self]
  · rw [Function.update_of_ne hn]
    exact h n

/-- What one more in a half of a byte is to the byte. -/
def nibbleUnit (idx : ℕ) : ℕ := if idx % 2 = 1 then 0x10 else 0x01

/-- One more in one half, as long as it is not full, and nothing in the other. -/
theorem nibble_add {idx b : ℕ} (hb : b < 256) (hroom : nibble idx b < sketchMax) :
    nibble idx ((b + nibbleUnit idx) % 256) = nibble idx b + 1 ∧
      nibble (idx + 1) ((b + nibbleUnit idx) % 256) = nibble (idx + 1) b := by
  unfold nibble nibbleUnit sketchMax at *
  by_cases hodd : idx % 2 = 1
  · have heven : ¬(idx + 1) % 2 = 1 := by omega
    rw [if_pos hodd] at hroom
    rw [if_pos hodd, if_pos hodd, if_pos hodd, if_neg heven, if_neg heven]
    omega
  · have hnext : (idx + 1) % 2 = 1 := by omega
    rw [if_neg hodd] at hroom
    rw [if_neg hodd, if_neg hodd, if_neg hodd, if_pos hnext, if_pos hnext]
    omega

theorem sketchInc_eq (counters : ℕ → ℕ) (idx : ℕ) :
    sketchInc counters idx =
      if sketchGet counters idx < sketchMax then
        Function.update counters (idx >>> 1) ((counters (idx >>> 1) + nibbleUnit idx) % 256)
      else counters := by
  unfold sketchInc sketchGet nibbleUnit
  rw [Nat.and_one_is_mod]
  by_cases hodd : idx % 2 = 1
  · rw [if_pos hodd, if_pos hodd, if_pos hodd]
  · rw [if_neg hodd, if_neg hodd, if_neg hodd]

/-- **Incrementing a counter** is one more there, as long as it is not full, and nothing in
any other. -/
theorem sketchGet_inc {counters : ℕ → ℕ} (hbytes : IsBytes counters) (idx : ℕ) :
    sketchGet (sketchInc counters idx) =
      Function.update (sketchGet counters) idx (tick sketchMax (sketchGet counters idx)) := by
  rw [sketchInc_eq]
  unfold tick
  by_cases hroom : sketchGet counters idx < sketchMax
  · rw [if_pos hroom, if_pos hroom]
    rw [sketchGet_eq] at hroom
    obtain ⟨hself, hother⟩ := nibble_add (hbytes (idx >>> 1)) hroom
    rw [sketchGet_update counters hself hother, ← sketchGet_eq]
  · rw [if_neg hroom, if_neg hroom, Function.update_eq_self]

theorem IsBytes.inc {counters : ℕ → ℕ} (h : IsBytes counters) (idx : ℕ) :
    IsBytes (sketchInc counters idx) := by
  rw [sketchInc_eq]
  split_ifs
  · exact h.update (Nat.mod_lt _ (by decide))
  · exact h

/-- **Halving a byte** halves each of its counters by itself. -/
theorem nibbles_halved : ∀ b < 256, ((b >>> 1) &&& 0x77) % 16 = b % 16 / 2 ∧
    ((b >>> 1) &&& 0x77) / 16 = b / 16 / 2 ∧ ((b >>> 1) &&& 0x77) < 256 := by
  decide +kernel

/-! ## The stripe -/

/-- `bytes` and `stripe` of `sketch_halve`. -/
def sketchBytes (width : ℕ) : ℕ := width * sketchRowCount / 2

def sketchStripe (width : ℕ) : ℕ :=
  (sketchBytes width + sketchHalveStripes - 1) / sketchHalveStripes

/-- The counter `idx` is in the stripe at the cursor. -/
def InStripe (sk : Sketch) (idx : ℕ) : Prop :=
  Swept (sketchBytes sk.width) (sketchStripe sk.width) sk.cursor (idx >>> 1)

instance (sk : Sketch) (idx : ℕ) : Decidable (InStripe sk idx) :=
  inferInstanceAs (Decidable (Swept _ _ _ _))

/-- The next bump halves a stripe. -/
def HalvesNext (sk : Sketch) : Prop := sk.ops + 1 ≥ sk.resetAt

instance (sk : Sketch) : Decidable (HalvesNext sk) := inferInstanceAs (Decidable (_ ≥ _))

/-- The array after `sketch_halve`. -/
def halvedCounters (sk : Sketch) (counters : ℕ → ℕ) : ℕ → ℕ := fun i =>
  if Swept (sketchBytes sk.width) (sketchStripe sk.width) sk.cursor i then
    (counters i >>> 1) &&& 0x77
  else counters i

theorem sketchHalve_eq (sk : Sketch) (counters : ℕ → ℕ) :
    sketchHalve sk counters =
      { sk with
        counters := some (halvedCounters sk counters)
        ops := 0
        cursor := nextCursor (sketchBytes sk.width) (sketchStripe sk.width) sk.cursor
        gen := sk.gen +
          if Wraps (sketchBytes sk.width) (sketchStripe sk.width) sk.cursor then 1 else 0 } := by
  unfold nextCursor
  by_cases hwraps : Wraps (sketchBytes sk.width) (sketchStripe sk.width) sk.cursor
  · rw [if_pos hwraps, if_pos hwraps]
    exact if_pos hwraps
  · rw [if_neg hwraps, if_neg hwraps]
    exact if_neg hwraps

theorem IsBytes.halved {counters : ℕ → ℕ} (h : IsBytes counters) (sk : Sketch) :
    IsBytes (halvedCounters sk counters) := by
  intro n
  unfold halvedCounters
  split_ifs
  · exact (nibbles_halved _ (h n)).2.2
  · exact h n

/-- **Halving a stripe** halves each of its counters, and no other. -/
theorem sketchGet_halved {counters : ℕ → ℕ} (h : IsBytes counters) (sk : Sketch) :
    sketchGet (halvedCounters sk counters) =
      age (sketchGet counters) fun idx => decide (InStripe sk idx) := by
  funext idx
  obtain ⟨hlow, hhigh, -⟩ := nibbles_halved _ (h (idx >>> 1))
  show sketchGet (halvedCounters sk counters) idx =
    if decide (InStripe sk idx) then sketchGet counters idx / 2 else sketchGet counters idx
  rw [sketchGet_eq, sketchGet_eq]
  by_cases hin : InStripe sk idx
  · have hbyte : halvedCounters sk counters (idx >>> 1) = (counters (idx >>> 1) >>> 1) &&& 0x77 :=
      if_pos hin
    rw [if_pos (decide_eq_true hin), hbyte]
    unfold nibble
    split_ifs
    · exact hhigh
    · exact hlow
  · have hbyte : halvedCounters sk counters (idx >>> 1) = counters (idx >>> 1) := if_neg hin
    rw [if_neg (by rw [decide_eq_true_iff]; exact hin), hbyte]

/-! ## A bump -/

/-- The counters of a key, one in each row. -/
def sketchCells (width : ℕ) (hash : UInt32) : List ℕ :=
  (List.range sketchRowCount).map fun row => sketchIndex width row (sketchRowHash hash row)

/-- A bump, from the key's hash. -/
def sketchTouch (sk : Sketch) (hash : UInt32) : Sketch := sketchBump sk (sketchRows hash)

/-- The events of a bump. -/
def sketchEvents (sk : Sketch) (hash : UInt32) : List (Event UInt32 ℕ) :=
  .bump hash :: if HalvesNext sk then [.age fun idx => decide (InStripe sk idx)] else []

theorem zipIdx_sketchRows (width : ℕ) (hash : UInt32) :
    ((sketchRows hash).zipIdx.map fun p => sketchIndex width p.2 p.1) = sketchCells width hash :=
  rfl

theorem sketchGet_incs {counters : ℕ → ℕ} (h : IsBytes counters) (cells : List ℕ) :
    sketchGet (cells.foldl sketchInc counters) = bump sketchMax (sketchGet counters) cells ∧
      IsBytes (cells.foldl sketchInc counters) := by
  induction cells generalizing counters with
  | nil => exact ⟨rfl, h⟩
  | cons idx cells ih =>
    obtain ⟨hget, hbytes⟩ := ih (h.inc idx)
    refine ⟨?_, hbytes⟩
    rw [sketchGet_inc h] at hget
    exact hget

/-- The array of a sketch of this width. -/
structure Sketch.Holds (sk : Sketch) (width : ℕ) (counters : ℕ → ℕ) : Prop where
  array : sk.counters = some counters
  size : sk.width = width
  bytes : IsBytes counters
  cursor : sk.cursor < sketchBytes width

/-- The counters after the increments of a bump. -/
def bumpedCounters (width : ℕ) (counters : ℕ → ℕ) (hash : UInt32) : ℕ → ℕ :=
  (sketchCells width hash).foldl sketchInc counters

theorem sketchTouch_eq {sk : Sketch} {counters : ℕ → ℕ} (harray : sk.counters = some counters)
    (hash : UInt32) :
    sketchTouch sk hash =
      let bumped := bumpedCounters sk.width counters hash
      let sk' := { sk with counters := some bumped, bumps := sk.bumps + 1, ops := sk.ops + 1 }
      if HalvesNext sk then sketchHalve sk' bumped else sk' := by
  unfold sketchTouch sketchBump
  rw [harray]
  show _ = ite _ (sketchHalve _ _) _
  unfold bumpedCounters
  rw [← zipIdx_sketchRows, List.foldl_map]
  rfl

variable {sk : Sketch} {width : ℕ} {counters : ℕ → ℕ}

/-- **A bump of the sketch** is a bump of the count-min sketch, and the aging of a stripe where
that is due. -/
theorem Sketch.Holds.touch (h : sk.Holds width counters) (hash : UInt32) :
    ∃ counters', (sketchTouch sk hash).Holds width counters' ∧
      sketchGet counters' =
        (sketchEvents sk hash).foldl (step sketchMax (sketchCells width)) (sketchGet counters) := by
  obtain ⟨harray, rfl, hb, hcursor⟩ := h
  obtain ⟨hget, hbytes⟩ := sketchGet_incs hb (sketchCells sk.width hash)
  rw [sketchTouch_eq harray]
  unfold sketchEvents
  by_cases hdue : HalvesNext sk
  · rw [if_pos hdue, if_pos hdue, sketchHalve_eq]
    refine ⟨_, ⟨rfl, rfl, hbytes.halved sk, nextCursor_lt (Nat.zero_lt_of_lt hcursor)⟩, ?_⟩
    refine (sketchGet_halved hbytes sk).trans ?_
    rw [hget]
    rfl
  · rw [if_neg hdue, if_neg hdue]
    exact ⟨_, ⟨rfl, rfl, hbytes, hcursor⟩, hget⟩

/-! ## Runs -/

/-- The events of a run of bumps. -/
def sketchTrace : Sketch → List UInt32 → List (Event UInt32 ℕ)
  | _, [] => []
  | sk, hash :: run => sketchEvents sk hash ++ sketchTrace (sketchTouch sk hash) run

/-- **A run of bumps** is the run of its events. -/
theorem Sketch.Holds.after (h : sk.Holds width counters) (run : List UInt32) :
    ∃ counters', (Run.after sketchTouch sk run).Holds width counters' ∧
      sketchGet counters' =
        (sketchTrace sk run).foldl (step sketchMax (sketchCells width)) (sketchGet counters) := by
  induction run generalizing sk counters with
  | nil => exact ⟨counters, h, rfl⟩
  | cons hash run ih =>
    obtain ⟨counters₁, h₁, hget₁⟩ := h.touch hash
    obtain ⟨counters₂, h₂, hget₂⟩ := ih h₁
    refine ⟨counters₂, h₂, ?_⟩
    rw [sketchTrace, List.foldl_append, ← hget₁]
    exact hget₂

theorem sketchEstimate_eq (h : sk.Holds width counters) (hash : UInt32) :
    sketchEstimate sk (sketchRows hash) =
      estimate sketchMax (sketchGet counters) (sketchCells width hash) := by
  obtain ⟨harray, rfl, -, -⟩ := h
  unfold sketchEstimate estimate
  rw [harray, ← zipIdx_sketchRows, List.foldl_map]

/-- A sketch as `shm_init_zone` makes it. -/
def freshSketch (width resetAt : ℕ) : Sketch := ⟨some fun _ => 0, width, 0, resetAt, 0, 0, 0⟩

theorem freshSketch_holds {width : ℕ} (hwidth : 0 < width) (resetAt : ℕ) :
    (freshSketch width resetAt).Holds width fun _ => 0 := by
  refine ⟨rfl, rfl, fun _ => by decide, ?_⟩
  show 0 < width * 4 / 2
  omega

/-! ## Laps -/

/-- The bump halves the counter `idx`. -/
def Halves (idx : ℕ) (sk : Sketch) (_ : UInt32) : Prop := HalvesNext sk ∧ InStripe sk idx

instance (idx : ℕ) (sk : Sketch) (hash : UInt32) : Decidable (Halves idx sk hash) :=
  inferInstanceAs (Decidable (_ ∧ _))

/-- The bump increments `sketch_gen`. -/
def Advances (sk : Sketch) (hash : UInt32) : Prop := (sketchTouch sk hash).gen = sk.gen + 1

instance (sk : Sketch) (hash : UInt32) : Decidable (Advances sk hash) :=
  inferInstanceAs (Decidable (_ = _))

/-- How often a counter has been halved more than there have been laps: once while the cursor
is past it. -/
def ahead (sk : Sketch) (idx : ℕ) : ℕ := if idx >>> 1 < sk.cursor then 1 else 0

/-- The cursor and the generation after a bump. -/
theorem Sketch.Holds.touch_cursor (h : sk.Holds width counters) (hash : UInt32) :
    (sketchTouch sk hash).cursor =
        (if HalvesNext sk then nextCursor (sketchBytes width) (sketchStripe width) sk.cursor
          else sk.cursor) ∧
      (Advances sk hash ↔
        HalvesNext sk ∧ Wraps (sketchBytes width) (sketchStripe width) sk.cursor) := by
  obtain ⟨harray, rfl, -, -⟩ := h
  unfold Advances
  rw [sketchTouch_eq harray]
  dsimp only
  by_cases hdue : HalvesNext sk
  · rw [if_pos hdue, if_pos hdue, sketchHalve_eq]
    refine ⟨rfl, ?_⟩
    rw [and_iff_right hdue, Nat.add_left_cancel_iff]
    dsimp only
    by_cases hwraps : Wraps (sketchBytes sk.width) (sketchStripe sk.width) sk.cursor
    · rw [if_pos hwraps]
      exact iff_of_true rfl hwraps
    · rw [if_neg hwraps]
      exact iff_of_false Nat.zero_ne_one hwraps
  · rw [if_neg hdue, if_neg hdue]
    exact ⟨rfl, iff_of_false (Nat.succ_ne_self sk.gen).symm fun hboth => hdue hboth.1⟩

/-- **One bump**, by the counter. -/
theorem Sketch.Holds.touch_count (h : sk.Holds width counters) (hash : UInt32) {idx : ℕ}
    (hidx : idx < width * sketchRowCount) :
    ahead sk idx + (if Halves idx sk hash then 1 else 0) =
      (if Advances sk hash then 1 else 0) + ahead (sketchTouch sk hash) idx := by
  obtain ⟨hcursor, hadvances⟩ := h.touch_cursor hash
  have hbyte : idx >>> 1 < sketchBytes width := by
    unfold sketchBytes
    rw [Nat.shiftRight_eq_div_pow]
    exact Nat.div_lt_div_of_lt_of_dvd ⟨width * 2, by unfold sketchRowCount; omega⟩ hidx
  have hhalves : Halves idx sk hash ↔ HalvesNext sk ∧
      Swept (sketchBytes width) (sketchStripe width) sk.cursor (idx >>> 1) := by
    rw [← h.size]
    exact Iff.rfl
  unfold ahead
  rw [hcursor]
  by_cases hdue : HalvesNext sk
  · rw [if_pos hdue, if_congr (hhalves.trans (and_iff_right hdue)) rfl rfl,
      if_congr (hadvances.trans (and_iff_right hdue)) rfl rfl]
    exact swept_count h.cursor hbyte
  · rw [if_neg hdue, if_neg fun hh => hdue (hhalves.1 hh).1,
      if_neg fun ha => hdue (hadvances.1 ha).1, Nat.add_comm]

/-- **A run**, by the counter: it has been halved once a lap. -/
theorem Sketch.Holds.after_count (h : sk.Holds width counters) (run : List UInt32) {idx : ℕ}
    (hidx : idx < width * sketchRowCount) :
    ahead sk idx + Run.count sketchTouch (Halves idx) sk run =
      Run.count sketchTouch Advances sk run + ahead (Run.after sketchTouch sk run) idx := by
  induction run generalizing sk counters with
  | nil => exact Nat.add_comm _ _
  | cons hash run ih =>
    obtain ⟨counters', h', -⟩ := h.touch hash
    have hone := h.touch_count hash hidx
    have hrest := ih h'
    rw [Run.count, Run.count, Run.after_cons]
    omega

/-- An increment of `sketch_gen` is the end of a lap. -/
theorem Sketch.Holds.ahead_of_advances (h : sk.Holds width counters) {hash : UInt32}
    (hadvances : Advances sk hash) (idx : ℕ) : ahead (sketchTouch sk hash) idx = 0 := by
  obtain ⟨hcursor, hiff⟩ := h.touch_cursor hash
  obtain ⟨hdue, hwraps⟩ := hiff.1 hadvances
  have hzero : (sketchTouch sk hash).cursor = 0 := by
    rw [hcursor, if_pos hdue]
    exact if_pos hwraps
  unfold ahead
  rw [hzero, if_neg (Nat.not_lt_zero _)]

/-- **One lap** halves each counter once: the bumps after one increment of `sketch_gen`, up to
and with the next one. -/
theorem Sketch.Holds.lap_count (h : sk.Holds width counters) {x : UInt32} (hx : Advances sk x)
    {mid : List UInt32} {y : UInt32}
    (hmid : Run.Along sketchTouch (fun sk hash => ¬Advances sk hash) (sketchTouch sk x) mid)
    (hy : Advances (Run.after sketchTouch (sketchTouch sk x) mid) y) {idx : ℕ}
    (hidx : idx < width * sketchRowCount) :
    Run.count sketchTouch (Halves idx) (sketchTouch sk x) (mid ++ [y]) = 1 := by
  obtain ⟨counters₁, h₁, -⟩ := h.touch x
  obtain ⟨counters₂, h₂, -⟩ := h₁.after mid
  have hcount := h₁.after_count (mid ++ [y]) hidx
  rw [h.ahead_of_advances hx, Run.after_append, Run.after_cons, Run.after_nil,
    h₂.ahead_of_advances hy, Run.count_append _ Advances, Run.count_eq_zero hmid, Run.count,
    if_pos hy] at hcount
  exact (Nat.zero_add _).symm.trans hcount

/-! ## The sketch is exact -/

/-- The sketch after a run of bumps. -/
def sketchAfter (width resetAt : ℕ) (run : List UInt32) : Sketch :=
  Run.after sketchTouch (freshSketch width resetAt) run

/-- The own count of a key in its counter of a row, over a run of bumps. -/
def ownCount (width resetAt : ℕ) (run : List UInt32) (key : UInt32) (row : ℕ) : ℕ :=
  own sketchMax key (sketchIndex width row (sketchRowHash key row))
    (sketchTrace (freshSketch width resetAt) run)

/-- The least of them. -/
def leastOwn (width resetAt : ℕ) (run : List UInt32) (key : UInt32) : ℕ :=
  min (min (ownCount width resetAt run key 0) (ownCount width resetAt run key 1))
    (min (ownCount width resetAt run key 2) (ownCount width resetAt run key 3))

/-- What is to be said of the sketch after a run of bumps: its counters are those of the run's
events; the estimate of a key is between the least of its own counts and 15; an increment and
a halving do to a counter what they should, and leave its neighbour alone; and the bumps after
one increment of `sketch_gen`, up to the next, halve each counter once. -/
structure SketchExact (width resetAt : ℕ) (run : List UInt32) : Prop where
  events : ∃ counters, (sketchAfter width resetAt run).counters = some counters ∧
    sketchGet counters = (sketchTrace (freshSketch width resetAt) run).foldl
      (step sketchMax (sketchCells width)) fun _ => 0
  lower : ∀ key, leastOwn width resetAt run key ≤
    sketchEstimate (sketchAfter width resetAt run) (sketchRows key)
  upper : ∀ key, sketchEstimate (sketchAfter width resetAt run) (sketchRows key) ≤ 15
  inc : ∀ counters, (sketchAfter width resetAt run).counters = some counters →
    ∀ idx other, sketchGet (sketchInc counters idx) other =
      if other = idx then min 15 (sketchGet counters idx + 1) else sketchGet counters other
  halve : ∀ counters, (sketchAfter width resetAt run).counters = some counters →
    ∃ halved, (sketchHalve (sketchAfter width resetAt run) counters).counters = some halved ∧
      ∀ idx, sketchGet halved idx =
        if InStripe (sketchAfter width resetAt run) idx then sketchGet counters idx / 2
        else sketchGet counters idx
  laps : ∀ pre x mid y post, run = pre ++ x :: (mid ++ y :: post) →
    Advances (sketchAfter width resetAt pre) x →
    Run.Along sketchTouch (fun sk hash => ¬Advances sk hash)
      (sketchAfter width resetAt (pre ++ [x])) mid →
    Advances (sketchAfter width resetAt (pre ++ x :: mid)) y →
    ∀ idx < width * sketchRowCount, Run.count sketchTouch (Halves idx)
      (sketchAfter width resetAt (pre ++ [x])) (mid ++ [y]) = 1

/-- A counter is never above the greatest. -/
theorem sketchGet_le (hbytes : IsBytes counters) (idx : ℕ) :
    sketchGet counters idx ≤ sketchMax := by
  have hb := hbytes (idx >>> 1)
  rw [sketchGet_eq]
  unfold nibble sketchMax
  split_ifs
  · omega
  · omega

theorem leastOwn_le (width resetAt : ℕ) (run : List UInt32) (key : UInt32) {row : ℕ}
    (hrow : row < sketchRowCount) :
    leastOwn width resetAt run key ≤ ownCount width resetAt run key row := by
  unfold leastOwn
  match row, hrow with
  | 0, _ => exact (min_le_left _ _).trans (min_le_left _ _)
  | 1, _ => exact (min_le_left _ _).trans (min_le_right _ _)
  | 2, _ => exact (min_le_right _ _).trans (min_le_left _ _)
  | 3, _ => exact (min_le_right _ _).trans (min_le_right _ _)

/-- **The error of the sketch is one-sided, and its aging is exact**: whatever keys are bumped,
however they collide and wherever the stripes fall. -/
theorem sketch_exact {width : ℕ} (hwidth : 1024 ≤ width) (resetAt : ℕ) (run : List UInt32) :
    SketchExact width resetAt run := by
  have hfresh := freshSketch_holds (Nat.zero_lt_of_lt hwidth) resetAt
  have hzero : sketchGet (fun _ => 0) = fun _ => 0 := by
    funext idx
    rw [sketchGet_eq]
    exact ite_self 0
  obtain ⟨counters, hholds, hget⟩ := hfresh.after run
  rw [hzero] at hget
  have harray : ∀ {counters'}, (sketchAfter width resetAt run).counters = some counters' →
      counters' = counters := fun h => Option.some.inj (h.symm.trans hholds.array)
  refine ⟨⟨counters, hholds.array, hget⟩, fun key => ?_, fun key => ?_, ?_, ?_, ?_⟩
  · -- each cell of the key is above its own count there, so their least is above the least
    have hestimate : sketchEstimate (sketchAfter width resetAt run) (sketchRows key) = _ :=
      sketchEstimate_eq hholds key
    rw [hestimate]
    have hfirst := @leastOwn_le width resetAt run key 0 (by decide)
    refine le_estimate (hfirst.trans (own_le _ _ _ _)) fun idx hidx => ?_
    obtain ⟨row, hrow, rfl⟩ := List.mem_map.1 hidx
    refine (leastOwn_le _ _ _ _ (List.mem_range.1 hrow)).trans ?_
    rw [hget]
    exact own_le_after hidx _ _
  · have hestimate : sketchEstimate (sketchAfter width resetAt run) (sketchRows key) = _ :=
      sketchEstimate_eq hholds key
    rw [hestimate]
    exact estimate_le sketchMax _ _
  · intro counters' h idx other
    rw [harray h, sketchGet_inc hholds.bytes, Function.update_apply]
    refine if_congr Iff.rfl ?_ rfl
    have hfull := sketchGet_le hholds.bytes idx
    unfold tick sketchMax at *
    split_ifs <;> omega
  · intro counters' h
    rw [harray h, sketchHalve_eq]
    refine ⟨_, rfl, fun idx => ?_⟩
    rw [sketchGet_halved hholds.bytes]
    exact if_congr decide_eq_true_iff rfl rfl
  · intro pre x mid y post _ hx hmid hy idx hidx
    obtain ⟨counters₁, h₁, -⟩ := hfresh.after pre
    have hnext : sketchAfter width resetAt (pre ++ [x]) =
        sketchTouch (sketchAfter width resetAt pre) x := Run.after_append ..
    have hlast : sketchAfter width resetAt (pre ++ x :: mid) =
        Run.after sketchTouch (sketchTouch (sketchAfter width resetAt pre) x) mid :=
      Run.after_append ..
    rw [hnext] at hmid ⊢
    rw [hlast] at hy
    exact Sketch.Holds.lap_count h₁ hx hmid hy hidx

theorem sketch_exact_narrow : SketchExact 1024 10240 [7, 7, 9] :=
  sketch_exact (Nat.le_refl 1024) 10240 [7, 7, 9]

end Shm
end CacheTurbo
