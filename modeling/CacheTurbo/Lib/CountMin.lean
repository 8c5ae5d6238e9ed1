/-
# A count-min sketch that ages

Counters that saturate, and for each key the cells it is counted in.  A bump adds one in each
cell of its key; keys may share cells in any way.  Aging halves some of the cells, any of them,
at any time.

What a key has in one of its cells is the key's own count there (`own`), if nobody else is
counted, and more than that otherwise: `own_le_after`.  The estimate is the least of the key's
cells, so it is never below the least own count (`le_estimate`).

The last part is about aging in stripes: a cursor that goes over `size` cells, `stripe` of them
at a time, and starts again at the end.
-/

import Mathlib.Data.List.Basic
import Mathlib.Logic.Function.Basic
import Mathlib.Order.Nat

namespace CacheTurbo
namespace CountMin

variable {κ ι : Type*}

/-- What happens to a sketch. -/
inductive Event (κ ι : Type*)
  | bump (key : κ)
  | age (stale : ι → Bool)

/-- One more, as long as the counter is not full. -/
def tick (most n : ℕ) : ℕ := if n < most then n + 1 else n

section Counters

variable [DecidableEq ι]

/-- One more in each of some cells. -/
def bump (most : ℕ) (c : ι → ℕ) (cells : List ι) : ι → ℕ :=
  cells.foldl (fun c i => Function.update c i (tick most (c i))) c

/-- Half in each stale cell. -/
def age (c : ι → ℕ) (stale : ι → Bool) : ι → ℕ := fun i => if stale i then c i / 2 else c i

def step (most : ℕ) (cells : κ → List ι) (c : ι → ℕ) : Event κ ι → ι → ℕ
  | .bump key => bump most c (cells key)
  | .age stale => age c stale

/-- The least of some cells. -/
def estimate (most : ℕ) (c : ι → ℕ) (cells : List ι) : ℕ :=
  cells.foldl (fun least i => if c i < least then c i else least) most

end Counters

/-- What an event does to the own count of `key` in the cell `i`. -/
def ownStep [DecidableEq κ] (most : ℕ) (key : κ) (i : ι) (n : ℕ) : Event κ ι → ℕ
  | .bump key' => if key' = key then tick most n else n
  | .age stale => if stale i then n / 2 else n

/-- The own count of `key` in the cell `i`, from 0. -/
def own [DecidableEq κ] (most : ℕ) (key : κ) (i : ι) (events : List (Event κ ι)) : ℕ :=
  events.foldl (ownStep most key i) 0

variable {most : ℕ}

theorem le_tick (most n : ℕ) : n ≤ tick most n := by
  unfold tick
  split_ifs
  · exact Nat.le_succ n
  · exact le_rfl

theorem tick_mono (most : ℕ) {m n : ℕ} (h : m ≤ n) : tick most m ≤ tick most n := by
  unfold tick
  split_ifs <;> omega

theorem tick_le {n : ℕ} (h : n ≤ most) : tick most n ≤ most := by
  unfold tick
  split_ifs with hn
  · exact hn
  · exact h

/-! ## The lower bound -/

section LowerBound

variable [DecidableEq ι]

/-- A bump takes nothing away. -/
theorem le_bump (most : ℕ) (c : ι → ℕ) (cells : List ι) (i : ι) : c i ≤ bump most c cells i := by
  unfold bump
  induction cells generalizing c with
  | nil => exact le_rfl
  | cons j cells ih =>
    refine le_trans ?_ (ih _)
    show c i ≤ Function.update c j (tick most (c j)) i
    by_cases hij : i = j
    · rw [hij, Function.update_self]
      exact le_tick most (c j)
    · rw [Function.update_of_ne hij]

/-- A bump adds one in its own cells, at least. -/
theorem tick_le_bump (most : ℕ) (c : ι → ℕ) {cells : List ι} {i : ι} (hi : i ∈ cells) :
    tick most (c i) ≤ bump most c cells i := by
  induction cells generalizing c with
  | nil => cases hi
  | cons j cells ih =>
    by_cases hij : i = j
    · have hfirst : tick most (c i) = Function.update c j (tick most (c j)) i := by
        rw [hij, Function.update_self]
      rw [hfirst]
      exact le_bump most _ cells i
    · have hrest : i ∈ cells := (List.mem_cons.1 hi).resolve_left hij
      have htail := ih (Function.update c j (tick most (c j))) hrest
      rwa [Function.update_of_ne hij] at htail

variable [DecidableEq κ] {cells : κ → List ι} {key : κ} {i : ι}

/-- Every event leaves a cell with no less than the own count of a key that is counted there. -/
theorem ownStep_le_step {c : ι → ℕ} {n : ℕ} (hi : i ∈ cells key) (h : n ≤ c i)
    (event : Event κ ι) : ownStep most key i n event ≤ step most cells c event i := by
  cases event with
  | bump key' =>
    show (if key' = key then tick most n else n) ≤ bump most c (cells key') i
    split_ifs with hkey
    · subst hkey
      exact (tick_mono most h).trans (tick_le_bump most c hi)
    · exact h.trans (le_bump most c (cells key') i)
  | age stale =>
    show (if stale i then n / 2 else n) ≤ if stale i then c i / 2 else c i
    split_ifs
    · exact Nat.div_le_div_right h
    · exact h

/-- **No cell of a key is ever below the key's own count in it.** -/
theorem own_le_after (hi : i ∈ cells key) (c : ι → ℕ) (events : List (Event κ ι)) :
    own most key i events ≤ events.foldl (step most cells) c i := by
  have hfrom : ∀ n, n ≤ c i →
      events.foldl (ownStep most key i) n ≤ events.foldl (step most cells) c i := by
    induction events generalizing c with
    | nil => exact fun n hn => hn
    | cons event events ih => exact fun n hn => ih _ _ (ownStep_le_step hi hn event)
  exact hfrom 0 (Nat.zero_le _)

omit [DecidableEq ι] in
theorem own_le (most : ℕ) (key : κ) (i : ι) (events : List (Event κ ι)) :
    own most key i events ≤ most := by
  have hfrom : ∀ n, n ≤ most → events.foldl (ownStep most key i) n ≤ most := by
    induction events with
    | nil => exact fun n hn => hn
    | cons event events ih =>
      intro n hn
      refine ih _ ?_
      cases event with
      | bump key' =>
        show (if key' = key then tick most n else n) ≤ most
        split_ifs
        · exact tick_le hn
        · exact hn
      | age stale =>
        show (if stale i then n / 2 else n) ≤ most
        split_ifs
        · exact (Nat.div_le_self n 2).trans hn
        · exact hn
  exact hfrom 0 (Nat.zero_le _)

end LowerBound

/-! ## The estimate -/

theorem estimate_le (most : ℕ) (c : ι → ℕ) (cells : List ι) : estimate most c cells ≤ most := by
  unfold estimate
  induction cells generalizing most with
  | nil => exact le_rfl
  | cons i cells ih =>
    refine (ih _).trans ?_
    show (if c i < most then c i else most) ≤ most
    split_ifs with hi
    · exact hi.le
    · exact le_rfl

/-- What is below every cell is below the estimate. -/
theorem le_estimate {c : ι → ℕ} {cells : List ι} {n : ℕ} (hmost : n ≤ most)
    (hcells : ∀ i ∈ cells, n ≤ c i) : n ≤ estimate most c cells := by
  unfold estimate
  induction cells generalizing most with
  | nil => exact hmost
  | cons i cells ih =>
    refine ih ?_ fun j hj => hcells j (List.mem_cons_of_mem i hj)
    show n ≤ if c i < most then c i else most
    split_ifs
    · exact hcells i (List.mem_cons_self ..)
    · exact hmost

/-! ## Aging in stripes -/

/-- Where the next stripe begins. -/
def stripeStart (size cursor : ℕ) : ℕ := if cursor ≥ size then 0 else cursor

/-- And where it ends; the last one ends with the cells. -/
def stripeStop (size stripe cursor : ℕ) : ℕ :=
  if stripeStart size cursor + stripe ≥ size then size else stripeStart size cursor + stripe

/-- Whether the stripe is the last one of a lap. -/
def Wraps (size stripe cursor : ℕ) : Prop := stripeStop size stripe cursor ≥ size

instance (size stripe cursor : ℕ) : Decidable (Wraps size stripe cursor) :=
  inferInstanceAs (Decidable (_ ≥ _))

/-- The cursor after the stripe. -/
def nextCursor (size stripe cursor : ℕ) : ℕ :=
  if Wraps size stripe cursor then 0 else stripeStop size stripe cursor

/-- The stripe goes over the cell `x`. -/
def Swept (size stripe cursor x : ℕ) : Prop :=
  stripeStart size cursor ≤ x ∧ x < stripeStop size stripe cursor

instance (size stripe cursor x : ℕ) : Decidable (Swept size stripe cursor x) :=
  inferInstanceAs (Decidable (_ ∧ _))

section Stripes

variable {size stripe cursor : ℕ}

theorem nextCursor_lt (hsize : 0 < size) : nextCursor size stripe cursor < size := by
  unfold nextCursor
  split_ifs with hwraps
  · exact hsize
  · exact not_le.1 hwraps

/-- **One stripe.**  A cell has been swept once a lap, and once more if the cursor is past
it. -/
theorem swept_count (hcursor : cursor < size) {x : ℕ} (hx : x < size) :
    (if x < cursor then 1 else 0) + (if Swept size stripe cursor x then 1 else 0) =
      (if Wraps size stripe cursor then 1 else 0) +
        if x < nextCursor size stripe cursor then 1 else 0 := by
  have hstart : stripeStart size cursor = cursor := if_neg (not_le.2 hcursor)
  have hstop : stripeStop size stripe cursor =
      if cursor + stripe ≥ size then size else cursor + stripe := by
    unfold stripeStop
    rw [hstart]
  have hswept : Swept size stripe cursor x ↔ cursor ≤ x ∧ x < stripeStop size stripe cursor := by
    unfold Swept
    rw [hstart]
  by_cases hend : cursor + stripe ≥ size
  · rw [if_pos hend] at hstop
    have hwraps : Wraps size stripe cursor := hstop.ge
    have hnext : nextCursor size stripe cursor = 0 := if_pos hwraps
    rw [if_pos hwraps, hnext, if_neg (Nat.not_lt_zero x)]
    by_cases hx' : x < cursor
    · rw [if_pos hx', if_neg fun h => not_le.2 hx' (hswept.1 h).1]
    · rw [if_neg hx', if_pos (hswept.2 ⟨not_lt.1 hx', hx.trans_eq hstop.symm⟩)]
  · rw [if_neg hend] at hstop
    have hwraps : ¬Wraps size stripe cursor := fun h => hend (hstop ▸ h)
    have hnext : nextCursor size stripe cursor = cursor + stripe := (if_neg hwraps).trans hstop
    rw [hstop] at hswept
    rw [if_neg hwraps, hnext, Nat.zero_add]
    by_cases hx' : x < cursor
    · rw [if_pos hx', if_neg fun h => not_le.2 hx' (hswept.1 h).1,
        if_pos (hx'.trans_le (Nat.le_add_right _ _))]
    · rw [if_neg hx', Nat.zero_add]
      exact if_congr (hswept.trans (and_iff_right (not_lt.1 hx'))) rfl rfl

end Stripes

end CountMin
end CacheTurbo
