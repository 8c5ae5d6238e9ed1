/-
# The longest suffix in a language closed under prefixes

An automaton that searches a text for several words at once keeps, after each letter,
the longest suffix of what it has read that is the beginning of a word.  Here is that
suffix for any language: what it is (`best_suffix`, `best_longest`), how it changes
with the next letter when the language is closed under prefixes (`best_snoc`), and
why words that end at the text's end are the suffixes of it (`suffix_best`).
-/

import Mathlib.Data.List.Infix
import Mathlib.Tactic.Common

namespace CacheTurbo
namespace LongestSuffix

variable {α : Type*} (T : List α → Prop) [DecidablePred T]

/-- The longest suffix of `w` in `T`; the empty one where there is none. -/
def best : List α → List α
  | [] => []
  | x :: xs => if T (x :: xs) then x :: xs else best xs

@[simp] theorem best_nil : best T [] = [] := rfl

variable {T}

theorem best_of_mem {w : List α} (h : T w) : best T w = w := by
  cases w with
  | nil => rfl
  | cons x xs => exact if_pos h

theorem best_of_not_mem {x : α} {xs : List α} (h : ¬ T (x :: xs)) : best T (x :: xs) = best T xs :=
  if_neg h

theorem best_suffix (w : List α) : best T w <:+ w := by
  induction w with
  | nil => exact List.suffix_rfl
  | cons x xs ih =>
    unfold best
    split
    · exact List.suffix_rfl
    · exact ih.trans (List.suffix_cons x xs)

theorem best_mem (hnil : T []) (w : List α) : T (best T w) := by
  induction w with
  | nil => exact hnil
  | cons x xs ih =>
    unfold best
    split
    · assumption
    · exact ih

/-- **No suffix in the language is longer.** -/
theorem best_longest {v w : List α} (hv : v <:+ w) (h : T v) : v <:+ best T w := by
  induction w with
  | nil =>
    rw [List.suffix_nil.1 hv]
    exact List.nil_suffix
  | cons x xs ih =>
    unfold best
    split
    · exact hv
    · rename_i hnot
      rcases List.suffix_cons_iff.1 hv with rfl | hv
      · exact absurd h hnot
      · exact ih hv

/-- What has these three properties is the longest suffix. -/
theorem best_unique (hnil : T []) {u w : List α} (hu : u <:+ w) (h : T u)
    (hlongest : ∀ v, v <:+ w → T v → v <:+ u) : best T w = u :=
  (hlongest _ (best_suffix w) (best_mem hnil w)).eq_of_length_le (best_longest hu h).length_le

/-- **The next letter**: it is enough to know the longest suffix so far. -/
theorem best_snoc (hnil : T []) (hclosed : ∀ v c, T (v ++ [c]) → T v) (w : List α) (c : α) :
    best T (w ++ [c]) = best T (best T w ++ [c]) := by
  refine best_unique hnil ?_ (best_mem hnil _) fun v hv h => best_longest ?_ h
  · exact (best_suffix _).trans (List.suffix_append_self_iff.2 (best_suffix w))
  · obtain rfl | ⟨v', rfl, hv'⟩ := List.suffix_concat_iff.1 hv
    · exact List.nil_suffix
    · exact List.suffix_append_self_iff.2 (best_longest hv' (hclosed v' c h))

/-- The words of the language at the end of a text are those at the end of its longest
suffix. -/
theorem suffix_best {v w : List α} (h : T v) : v <:+ best T w ↔ v <:+ w :=
  ⟨fun hv => hv.trans (best_suffix w), fun hv => best_longest hv h⟩

end LongestSuffix
end CacheTurbo
