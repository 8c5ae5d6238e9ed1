/-
# The values of repeated arguments

A query may repeat a name, and the backend decides which of its values counts.
`$cache_turbo_normalized_args` sorts whole arguments, so it loses the order of the values of one
name.

What is read of a query is the sequence of values of each name (`valuesOf`).  Another query with the
same value of the variable may read otherwise exactly where a kept name has two different values and
the arguments are few enough to be sorted (`same_values_iff`).
-/

import CacheTurbo.Http.NormalizedArgs
import Mathlib.Data.List.TakeWhile

namespace CacheTurbo
namespace Http
namespace NormalizedArgs

open Bytes TokenBag

/-! ## What a backend reads -/

/-- The value of an argument, if it has one. -/
def argValue (t : Bytes) : Option Bytes :=
  if 61 ∈ t then some (t.dropWhile (· ≠ 61)).tail else none

/-- Whether an argument has a name. -/
def hasName (name t : Bytes) : Bool := argName t == name

/-- The values of a name in a query, in order. -/
def valuesOf (name args : Bytes) : List (Option Bytes) :=
  ((tokens 38 args).filter (hasName name)).map argValue

/-- An argument is its name and its value. -/
theorem arg_ext {t u : Bytes} (hname : argName t = argName u) (hvalue : argValue t = argValue u) :
    t = u := by
  have hsplit : ∀ w : Bytes, argName w ++ w.dropWhile (· ≠ 61) = w := fun w =>
    List.takeWhile_append_dropWhile
  have htail : ∀ w : Bytes, 61 ∈ w → w.dropWhile (· ≠ 61) = 61 :: (w.dropWhile (· ≠ 61)).tail := by
    intro w hw
    have hne : w.dropWhile (fun c => decide (c ≠ 61)) ≠ [] := by
      intro hnil
      exact of_decide_eq_true (List.dropWhile_eq_nil_iff.1 hnil 61 hw) rfl
    have hhead := List.head_dropWhile_not (fun c : UInt8 => decide (c ≠ 61)) hne
    have heq : (w.dropWhile (fun c => decide (c ≠ 61))).head hne = 61 :=
      not_not.1 (of_decide_eq_false hhead)
    conv_lhs => rw [← List.cons_head_tail hne, heq]
  have hbare : ∀ w : Bytes, 61 ∉ w → argName w = w := fun w hw =>
    List.takeWhile_eq_self_iff.2 fun c hc => decide_eq_true fun heq => hw (heq ▸ hc)
  rw [argValue, argValue] at hvalue
  by_cases ht : (61 : UInt8) ∈ t
  · by_cases hu : (61 : UInt8) ∈ u
    · rw [if_pos ht, if_pos hu] at hvalue
      rw [← hsplit t, ← hsplit u, hname, htail t ht, htail u hu, Option.some.inj hvalue]
    · rw [if_pos ht, if_neg hu] at hvalue
      cases hvalue
  · by_cases hu : (61 : UInt8) ∈ u
    · rw [if_neg ht, if_pos hu] at hvalue
      cases hvalue
    · rw [← hbare t ht, ← hbare u hu, hname]

/-- No argument of a name that is not denied is dropped. -/
theorem filter_keptArgs {conf : LocConf} {name : Bytes} (h : denied conf name = false)
    (args : Bytes) :
    (keptArgs conf args).filter (hasName name) = (tokens 38 args).filter (hasName name) := by
  rw [keptArgs, List.filter_filter]
  refine List.filter_congr fun t _ => ?_
  rw [hasName]
  by_cases hname : argName t = name
  · rw [hname, h]
    simp
  · rw [beq_eq_false_iff_ne.2 hname, Bool.false_and]

theorem valuesOf_eq {conf : LocConf} {name : Bytes} (h : denied conf name = false) (args : Bytes) :
    valuesOf name args = ((keptArgs conf args).filter (hasName name)).map argValue := by
  rw [valuesOf, filter_keptArgs h]

/-! ## Two queries with one value -/

/-- A query whose arguments come in another order. -/
def reordered (conf : LocConf) (x args : Bytes) : Bytes :=
  [38].intercalate (moveLast x (keptArgs conf args))

theorem tokens_reordered (conf : LocConf) (x args : Bytes) :
    tokens 38 (reordered conf x args) = moveLast x (keptArgs conf args) :=
  tokens_intercalate 38 fun _ ht =>
    isToken_of_mem_keptArgs ((moveLast_perm x (keptArgs conf args)).mem_iff.1 ht)

theorem keptArgs_reordered (conf : LocConf) (x args : Bytes) :
    keptArgs conf (reordered conf x args) = moveLast x (keptArgs conf args) := by
  rw [keptArgs, tokens_reordered, filter_moveLast]
  congr 1
  exact List.filter_eq_self.2 fun t ht => (List.mem_filter.1 ht).2

theorem us_not_mem_reordered {conf : LocConf} {args : Bytes} (h : us ∉ args) (x : Bytes) :
    us ∉ reordered conf x args := by
  intro hmem
  rcases mem_intercalate hmem with heq | ⟨t, ht, hin⟩
  · exact absurd heq (by decide)
  · have hkept : t ∈ keptArgs conf args := (moveLast_perm x (keptArgs conf args)).mem_iff.1 ht
    exact h (mem_of_mem_splitOn 38 (List.mem_filter.1 (List.mem_filter.1 hkept).1).1 hin)

/-- Where a kept name has two different values, the arguments have an order that reads otherwise. -/
theorem exists_reordered {conf : LocConf} {name args : Bytes} (hname : denied conf name = false)
    {x y : Option Bytes} (hx : x ∈ valuesOf name args) (hy : y ∈ valuesOf name args) (hne : x ≠ y) :
    ∃ t, valuesOf name args ≠ valuesOf name (reordered conf t args) := by
  rw [valuesOf_eq hname] at hx hy
  obtain ⟨t, ht, rfl⟩ := List.mem_map.1 hx
  obtain ⟨u, hu, rfl⟩ := List.mem_map.1 hy
  obtain ⟨first, rest, hfirst⟩ := List.exists_cons_of_ne_nil (List.ne_nil_of_mem ht)
  have hother : ∃ w ∈ (keptArgs conf args).filter (hasName name), w ≠ first := by
    by_cases htf : t = first
    · exact ⟨u, hu, fun huf => hne (by rw [htf, huf])⟩
    · exact ⟨t, ht, htf⟩
  obtain ⟨w, hw, hwf⟩ := hother
  obtain ⟨z, more, hzf, hz, hmore⟩ := head_moveLast hw hwf
  refine ⟨first, fun heq => ?_⟩
  rw [valuesOf_eq hname, valuesOf_eq hname, keptArgs_reordered, filter_moveLast, hmore, hfirst,
    List.map_cons, List.map_cons] at heq
  have hnames : ∀ w ∈ (keptArgs conf args).filter (hasName name), argName w = name := fun w hw =>
    beq_iff_eq.1 (List.mem_filter.1 hw).2
  have hff : first ∈ (keptArgs conf args).filter (hasName name) := hfirst ▸ List.mem_cons_self
  exact hzf (arg_ext ((hnames z hz).trans (hnames first hff).symm) (List.cons.inj heq).1.symm)

/-- **A query reads as every other with its value, exactly if no kept name has two different values
in it, or it has too many arguments to be sorted.** -/
theorem same_values_iff (loc : Location) (r : Request) (hus : us ∉ r.args) :
    (∀ pool pool' r' v v', us ∉ r'.args → normalizedArgsVariable pool loc.conf r = some v →
      normalizedArgsVariable pool' loc.conf r' = some v' → v.data = v'.data →
      ∀ name, nameDenied loc.conf name = false → valuesOf name r.args = valuesOf name r'.args) ↔
    Over loc.conf r.args ∨ ∀ name, nameDenied loc.conf name = false →
      ∀ x ∈ valuesOf name r.args, ∀ y ∈ valuesOf name r.args, x = y := by
  constructor
  · intro hsame
    by_cases hover : Over loc.conf r.args
    · exact Or.inl hover
    · refine Or.inr fun name hname x hx y hy => ?_
      by_contra hne
      rw [nameDenied_eq] at hname
      obtain ⟨t, ht⟩ := exists_reordered hname hx hy hne
      obtain ⟨v, hv⟩ := Option.isSome_iff_exists.1 (variable_isSome loc.conf r)
      obtain ⟨v', hv'⟩ := Option.isSome_iff_exists.1
        (variable_isSome loc.conf { r with args := reordered loc.conf t r.args })
      have hperm : (keptArgs loc.conf r.args).Perm
          (keptArgs loc.conf (reordered loc.conf t r.args)) := by
        rw [keptArgs_reordered]
        exact (moveLast_perm t _).symm
      have hbody : body loc.conf r.args = body loc.conf (reordered loc.conf t r.args) :=
        (body_eq_iff _ _ _).2
          (Or.inl ⟨hover, fun h => hover ((over_congr hperm.length_eq).2 h), hperm⟩)
      have heq : v.data = v'.data := by
        rw [variable_eq hv, variable_eq hv', hbody]
        rfl
      exact ht (hsame _ _ _ v v' (us_not_mem_reordered hus t) hv hv' heq name
        ((nameDenied_eq loc name).trans hname))
  · intro hgood pool pool' r' v v' hus' hv hv' heq name hname
    rw [variable_eq hv, variable_eq hv'] at heq
    have hbody := (append_sep_inj (us_not_mem_body hus) (us_not_mem_body hus')
      (varySuffix_ended _ r) (varySuffix_ended _ r') heq).1
    rcases (body_eq_iff _ _ _).1 hbody with ⟨hunder, -, hperm⟩ | ⟨-, -, hargs⟩
    · have hall := hgood.resolve_left hunder name hname
      rw [nameDenied_eq] at hname
      rw [valuesOf_eq hname] at hall ⊢
      rw [valuesOf_eq hname]
      exact eq_of_perm ((hperm.filter _).map argValue) hall
    · rw [hargs]

/-- `a=1&a=2`. -/
def oneTwo : Bytes := lit ['a', '=', '1', '&', 'a', '=', '2']

/-- `a=2&a=1`. -/
def twoOne : Bytes := lit ['a', '=', '2', '&', 'a', '=', '1']

/-- The last value of `a` is `2` in one of them and `1` in the other, and both have the value
`?a=1&a=2`. -/
theorem same_values_fails :
    ¬ ∀ (loc : Location) (pool pool' : Pool) (r r' : Request) (v v' : VarValue), us ∉ r.args →
      us ∉ r'.args → normalizedArgsVariable pool loc.conf r = some v →
      normalizedArgsVariable pool' loc.conf r' = some v' → v.data = v'.data →
      ∀ name, nameDenied loc.conf name = false → valuesOf name r.args = valuesOf name r'.args := by
  intro h
  have hvalue := h plainLocation ⟨true, true⟩ ⟨true, true⟩ (queryRequest oneTwo)
    (queryRequest twoOne) ⟨8, 63 :: oneTwo⟩ ⟨8, 63 :: oneTwo⟩ (by decide) (by decide) (by decide +kernel)
    (by decide +kernel) rfl [97] (by decide +kernel)
  exact absurd hvalue (by decide)

/-- A query without a repeated name. -/
theorem same_values_iff_unsorted :
    (∀ pool pool' r' v v', us ∉ r'.args →
      normalizedArgsVariable pool plainLocation.conf (queryRequest unsorted) = some v →
      normalizedArgsVariable pool' plainLocation.conf r' = some v' → v.data = v'.data →
      ∀ name, nameDenied plainLocation.conf name = false →
        valuesOf name unsorted = valuesOf name r'.args) ↔
    Over plainLocation.conf unsorted ∨ ∀ name, nameDenied plainLocation.conf name = false →
      ∀ x ∈ valuesOf name unsorted, ∀ y ∈ valuesOf name unsorted, x = y :=
  same_values_iff plainLocation (queryRequest unsorted) (by decide)

end NormalizedArgs
end Http
end CacheTurbo
