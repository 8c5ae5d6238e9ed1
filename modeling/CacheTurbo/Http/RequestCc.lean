/-
# What a request says of freshness

`ngx_http_cache_turbo_resolve_req_cc` merges the `Cache-Control` lines of a request in one pass
(`ngx_http_cache_turbo_module.c`), and `ngx_http_cache_turbo_req_serve_verdict` asks the merged
bounds about an entry.

The merge is one of directives, in whatever order and lines they come: `Merged` says what the
bounds are of them, and `resolveReqCc_merged` that the pass computes it.  A line is read as its
directives where the quotes of each are closed (`ccSplit_line`).
-/

import CacheTurbo.Http.ResponsePolicy
import Mathlib.Order.Bounds.Basic

namespace CacheTurbo
namespace Http
namespace RequestCc

open Bytes Policy

/-! ## Names -/

/-- `"min-fresh"`. -/
def minFresh : Bytes := lit ['m', 'i', 'n', '-', 'f', 'r', 'e', 's', 'h']

/-- `"max-stale"`. -/
def maxStale : Bytes := lit ['m', 'a', 'x', '-', 's', 't', 'a', 'l', 'e']

/-- `"only-if-cached"`. -/
def onlyIfCached : Bytes :=
  lit ['o', 'n', 'l', 'y', '-', 'i', 'f', '-', 'c', 'a', 'c', 'h', 'e', 'd']

/-- `"Pragma"`. -/
def pragmaName : Bytes := lit ['P', 'r', 'a', 'g', 'm', 'a']

/-! ## The pass -/

/-- The fields of `ngx_http_cache_turbo_ctx_t` that the pass fills. -/
structure ReqCc where
  cc : Option Bytes
  pragma : Option Bytes
  noCache : Bool
  noStore : Bool
  onlyIfCached : Bool
  maxAge : Time
  minFresh : Time
  maxStale : Time
  maxStaleSet : Bool
  maxStaleAny : Bool
  hasBounds : Bool
  deriving DecidableEq, Repr

/-- A token without the blanks around it. -/
def trimLws (t : Bytes) : Bytes := (t.dropWhile isLws).rdropWhile isLws

/-- The name of a token. -/
def tokenName (t : Bytes) : Bytes := t.takeWhile (· ≠ 61)

/-- The value of a token, if there is one. -/
def tokenValue (t : Bytes) : Option Bytes :=
  if 61 ∈ t then some (t.dropWhile (· ≠ 61)).tail else none

def tokenNamed (name t : Bytes) : Bool :=
  (tokenName t).length == name.length && eqFold (tokenName t) name

/-- What the calls of `ngx_http_cache_turbo_cc_token` give that share a cursor: the values of all
tokens with that name, where a bare one has none. -/
def ccTokens (name v : Bytes) : List (Option Bytes) :=
  (((ccSplit .plain [] v).map trimLws).filter (tokenNamed name)).map tokenValue

/-- The delta of a token, `-1` for a bare one. -/
def tokenDelta (t : Option Bytes) : Time :=
  match t with
  | none => -1
  | some q => ccParseDelta q

/-- `max-age` in the pass. -/
def mergeMaxAge (cc : ReqCc) (t : Option Bytes) : ReqCc :=
  if tokenDelta t ≥ 0 ∧ (cc.maxAge < 0 ∨ tokenDelta t < cc.maxAge) then
    { cc with maxAge := tokenDelta t, hasBounds := true }
  else cc

/-- `min-fresh` in the pass. -/
def mergeMinFresh (cc : ReqCc) (t : Option Bytes) : ReqCc :=
  if tokenDelta t ≥ 0 ∧ tokenDelta t > cc.minFresh then
    { cc with minFresh := tokenDelta t, hasBounds := true }
  else cc

/-- `max-stale` in the pass. -/
def mergeMaxStale (cc : ReqCc) (t : Option Bytes) : ReqCc :=
  let cc := { cc with maxStaleSet := true, hasBounds := true }
  match t with
  | none => if cc.maxStale < 0 then { cc with maxStaleAny := true } else cc
  | some q =>
      if ccParseDelta q ≥ 0 then
        { cc with
          maxStale :=
            if cc.maxStale < 0 ∨ ccParseDelta q < cc.maxStale then ccParseDelta q else cc.maxStale
          maxStaleAny := false }
      else cc

/-- One `Cache-Control` line of the pass. -/
def mergeLine (cc : ReqCc) (v : Bytes) : ReqCc :=
  let cc := if cc.cc = none then { cc with cc := some v } else cc
  let cc := if ccHas Policy.noCache v then { cc with noCache := true } else cc
  let cc := if ccHas Policy.noStore v then { cc with noStore := true } else cc
  let cc := if ccHas RequestCc.onlyIfCached v then { cc with onlyIfCached := true } else cc
  let cc := (ccTokens Policy.maxAge v).foldl mergeMaxAge cc
  let cc := (ccTokens RequestCc.minFresh v).foldl mergeMinFresh cc
  (ccTokens RequestCc.maxStale v).foldl mergeMaxStale cc

/-- One header of the pass. -/
def mergeHeader (cc : ReqCc) (h : Header) : ReqCc :=
  if h.hash = 0 then cc
  else if h.named cacheControl then mergeLine cc h.value
  else if cc.pragma = none ∧ h.named pragmaName then { cc with pragma := some h.value }
  else cc

/-- `ngx_http_cache_turbo_resolve_req_cc`. -/
def resolveReqCc (headers : List Header) : ReqCc :=
  headers.foldl mergeHeader ⟨none, none, false, false, false, -1, -1, -1, false, false, false⟩

/-- `ngx_http_cache_turbo_req_serve_verdict`: `fresh_ok` and `stale_ok`. -/
def reqServeVerdict (cc : ReqCc) (created now freshUntil : Time) : Bool × Bool :=
  let age := if now - created < 0 then 0 else now - created
  let freshOk := if cc.maxAge ≥ 0 ∧ age > cc.maxAge then false else true
  let freshOk := if cc.minFresh ≥ 0 ∧ freshUntil - now < cc.minFresh then false else freshOk
  let staleOk :=
    if cc.maxStaleSet then
      let staleness := if now - freshUntil < 0 then 0 else now - freshUntil
      cc.maxStaleAny || decide (staleness ≤ cc.maxStale)
    else if cc.maxAge ≥ 0 ∨ cc.minFresh ≥ 0 then false
    else true
  (freshOk, staleOk)

/-- What of the pass a verdict is asked about. -/
structure Bounds where
  maxAge : Time
  minFresh : Time
  maxStale : Time
  maxStaleSet : Bool
  maxStaleAny : Bool
  hasBounds : Bool
  deriving DecidableEq, Repr

def ReqCc.bounds (cc : ReqCc) : Bounds :=
  ⟨cc.maxAge, cc.minFresh, cc.maxStale, cc.maxStaleSet, cc.maxStaleAny, cc.hasBounds⟩

/-! ## What the bounds are -/

/-- The deltas of the tokens that have one. -/
def deltas (ts : List (Option Bytes)) : List Time := (ts.map tokenDelta).filter (0 ≤ ·)

/-- The least of the deltas, `-1` for none. -/
def Least (ds : List Time) (m : Time) : Prop := ds = [] ∧ m = -1 ∨ IsLeast {d | d ∈ ds} m

/-- The greatest of the deltas, `-1` for none. -/
def Greatest (ds : List Time) (m : Time) : Prop := ds = [] ∧ m = -1 ∨ IsGreatest {d | d ∈ ds} m

/-- **What directives merge to**: the least `max-age`, the greatest `min-fresh`, and the least
`max-stale`; a bare `max-stale` counts where no other has a delta. -/
structure Merged (ages freshs stales : List (Option Bytes)) (cc : ReqCc) : Prop where
  maxAge : Least (deltas ages) cc.maxAge
  minFresh : Greatest (deltas freshs) cc.minFresh
  maxStale : Least (deltas stales) cc.maxStale
  maxStaleSet : cc.maxStaleSet = true ↔ stales ≠ []
  maxStaleAny : cc.maxStaleAny = true ↔ none ∈ stales ∧ deltas stales = []
  hasBounds : cc.hasBounds = true ↔ deltas ages ≠ [] ∨ deltas freshs ≠ [] ∨ stales ≠ []

theorem deltas_append (ts us : List (Option Bytes)) : deltas (ts ++ us) = deltas ts ++ deltas us := by
  rw [deltas, List.map_append, List.filter_append]
  rfl

theorem nonneg_of_mem_deltas {ts : List (Option Bytes)} {d : Time} (h : d ∈ deltas ts) : 0 ≤ d :=
  of_decide_eq_true (List.mem_filter.1 h).2

theorem deltas_of_nonneg {t : Option Bytes} (h : tokenDelta t ≥ 0) : deltas [t] = [tokenDelta t] := by
  rw [deltas, List.map_cons, List.map_nil, List.filter_cons, if_pos (by simpa using h)]
  rfl

theorem deltas_of_neg {t : Option Bytes} (h : ¬ tokenDelta t ≥ 0) : deltas [t] = [] := by
  rw [deltas, List.map_cons, List.map_nil, List.filter_cons, if_neg (by simpa using h)]
  rfl

theorem deltas_concat_ne (ts : List (Option Bytes)) {t : Option Bytes} (h : tokenDelta t ≥ 0) :
    deltas (ts ++ [t]) ≠ [] := by
  rw [deltas_append, deltas_of_nonneg h]
  exact List.concat_ne_nil _ _

/-- The bound of some deltas is negative just where there are none. -/
theorem neg_iff_of_mem {ts : List (Option Bytes)} {m : Time}
    (h : deltas ts = [] ∧ m = -1 ∨ m ∈ deltas ts) : m < 0 ↔ deltas ts = [] := by
  rcases h with ⟨hnil, rfl⟩ | hmem
  · exact iff_of_true (by decide) hnil
  · exact iff_of_false (Int.not_lt.2 (nonneg_of_mem_deltas hmem)) (List.ne_nil_of_mem hmem)

theorem Least.neg_iff {ts : List (Option Bytes)} {m : Time} (h : Least (deltas ts) m) :
    m < 0 ↔ deltas ts = [] :=
  neg_iff_of_mem (h.imp_right fun hleast => hleast.1)

theorem Greatest.neg_iff {ts : List (Option Bytes)} {m : Time} (h : Greatest (deltas ts) m) :
    m < 0 ↔ deltas ts = [] :=
  neg_iff_of_mem (h.imp_right fun hgreatest => hgreatest.1)

theorem setOf_mem_concat (ds : List Time) (d : Time) :
    {e | e ∈ ds ++ [d]} = insert d {e | e ∈ ds} := by
  ext e
  simp [or_comm]

/-- A delta more. -/
theorem Least.concat {ts : List (Option Bytes)} {m : Time} (h : Least (deltas ts) m)
    {t : Option Bytes} (ht : tokenDelta t ≥ 0) :
    Least (deltas (ts ++ [t])) (if m < 0 ∨ tokenDelta t < m then tokenDelta t else m) := by
  rw [deltas_append, deltas_of_nonneg ht]
  right
  rw [setOf_mem_concat]
  rcases h with ⟨hnil, rfl⟩ | hleast
  · rw [hnil, if_pos (Or.inl (by decide))]
    simp
  · have hpos : ¬ m < 0 := Int.not_lt.2 (nonneg_of_mem_deltas hleast.1)
    have hmin : (if m < 0 ∨ tokenDelta t < m then tokenDelta t else m) = min (tokenDelta t) m := by
      split
      · rename_i hlt
        exact (min_eq_left (le_of_lt (hlt.resolve_left hpos))).symm
      · rename_i hge
        exact (min_eq_right (Int.not_lt.1 fun hlt => hge (Or.inr hlt))).symm
    rw [hmin]
    exact hleast.insert _

theorem Greatest.concat {ts : List (Option Bytes)} {m : Time} (h : Greatest (deltas ts) m)
    {t : Option Bytes} (ht : tokenDelta t ≥ 0) :
    Greatest (deltas (ts ++ [t])) (if tokenDelta t > m then tokenDelta t else m) := by
  rw [deltas_append, deltas_of_nonneg ht]
  right
  rw [setOf_mem_concat]
  rcases h with ⟨hnil, rfl⟩ | hgreatest
  · rw [hnil, if_pos (lt_of_lt_of_le (by decide) ht)]
    simp
  · have hmax : (if tokenDelta t > m then tokenDelta t else m) = max (tokenDelta t) m := by
      split
      · rename_i hlt
        exact (max_eq_left (le_of_lt hlt)).symm
      · rename_i hge
        exact (max_eq_right (Int.not_lt.1 hge)).symm
    rw [hmax]
    exact hgreatest.insert _

/-! ## One directive more -/

section Steps

variable {ages freshs stales : List (Option Bytes)} {cc : ReqCc}

theorem deltas_concat_of_neg (ts : List (Option Bytes)) {t : Option Bytes}
    (h : ¬ tokenDelta t ≥ 0) : deltas (ts ++ [t]) = deltas ts := by
  rw [deltas_append, deltas_of_neg h, List.append_nil]

theorem Merged.maxAge_step (h : Merged ages freshs stales cc) (t : Option Bytes) :
    Merged (ages ++ [t]) freshs stales (mergeMaxAge cc t) := by
  rw [mergeMaxAge]
  by_cases ht : tokenDelta t ≥ 0
  · have hleast := h.maxAge.concat ht
    have hsome := deltas_concat_ne ages ht
    by_cases hnew : cc.maxAge < 0 ∨ tokenDelta t < cc.maxAge
    · rw [if_pos hnew] at hleast
      rw [if_pos ⟨ht, hnew⟩]
      exact ⟨hleast, h.minFresh, h.maxStale, h.maxStaleSet, h.maxStaleAny,
        iff_of_true rfl (Or.inl hsome)⟩
    · rw [if_neg hnew] at hleast
      rw [if_neg fun hboth => hnew hboth.2]
      have hages : deltas ages ≠ [] := fun hnil => hnew (Or.inl (h.maxAge.neg_iff.2 hnil))
      exact ⟨hleast, h.minFresh, h.maxStale, h.maxStaleSet, h.maxStaleAny,
        iff_of_true (h.hasBounds.2 (Or.inl hages)) (Or.inl hsome)⟩
  · rw [if_neg fun hboth => ht hboth.1]
    have hsame := deltas_concat_of_neg ages ht
    exact ⟨hsame ▸ h.maxAge, h.minFresh, h.maxStale, h.maxStaleSet, h.maxStaleAny,
      hsame ▸ h.hasBounds⟩

theorem Merged.minFresh_step (h : Merged ages freshs stales cc) (t : Option Bytes) :
    Merged ages (freshs ++ [t]) stales (mergeMinFresh cc t) := by
  rw [mergeMinFresh]
  by_cases ht : tokenDelta t ≥ 0
  · have hgreatest := h.minFresh.concat ht
    have hsome := deltas_concat_ne freshs ht
    by_cases hnew : tokenDelta t > cc.minFresh
    · rw [if_pos hnew] at hgreatest
      rw [if_pos ⟨ht, hnew⟩]
      exact ⟨h.maxAge, hgreatest, h.maxStale, h.maxStaleSet, h.maxStaleAny,
        iff_of_true rfl (Or.inr (Or.inl hsome))⟩
    · rw [if_neg hnew] at hgreatest
      rw [if_neg fun hboth => hnew hboth.2]
      have hfreshs : deltas freshs ≠ [] := fun hnil =>
        hnew (lt_of_lt_of_le (h.minFresh.neg_iff.2 hnil) ht)
      exact ⟨h.maxAge, hgreatest, h.maxStale, h.maxStaleSet, h.maxStaleAny,
        iff_of_true (h.hasBounds.2 (Or.inr (Or.inl hfreshs))) (Or.inr (Or.inl hsome))⟩
  · rw [if_neg fun hboth => ht hboth.1]
    have hsame := deltas_concat_of_neg freshs ht
    exact ⟨h.maxAge, hsame ▸ h.minFresh, h.maxStale, h.maxStaleSet, h.maxStaleAny,
      hsame ▸ h.hasBounds⟩

/-- The three forms of `max-stale`: a bare one counts until there is a delta, and a delta takes
back what it counted. -/
theorem Merged.maxStale_step (h : Merged ages freshs stales cc) (t : Option Bytes) :
    Merged ages freshs (stales ++ [t]) (mergeMaxStale cc t) := by
  have hset : stales ++ [t] ≠ [] := List.concat_ne_nil _ _
  have hbounds : deltas ages ≠ [] ∨ deltas freshs ≠ [] ∨ stales ++ [t] ≠ [] := Or.inr (Or.inr hset)
  unfold mergeMaxStale
  cases t with
  | none =>
    have hneg : ¬ tokenDelta none ≥ 0 := by decide
    have hsame := deltas_concat_of_neg stales hneg
    have hbare : none ∈ stales ++ [none] := List.mem_append_right _ List.mem_cons_self
    dsimp only
    by_cases hnil : deltas stales = []
    · rw [if_pos (h.maxStale.neg_iff.2 hnil)]
      exact ⟨h.maxAge, h.minFresh, hsame ▸ h.maxStale, iff_of_true rfl hset,
        iff_of_true rfl ⟨hbare, hsame.trans hnil⟩, iff_of_true rfl hbounds⟩
    · rw [if_neg fun hlt => hnil (h.maxStale.neg_iff.1 hlt)]
      refine ⟨h.maxAge, h.minFresh, hsame ▸ h.maxStale, iff_of_true rfl hset,
        iff_of_false (fun hany => ?_) (fun hany => ?_), iff_of_true rfl hbounds⟩
      · exact hnil (h.maxStaleAny.1 hany).2
      · exact hnil (hsame ▸ hany.2)
  | some q =>
    dsimp only
    have hmem : none ∈ stales ++ [some q] ↔ none ∈ stales := by simp
    by_cases hq : ccParseDelta q ≥ 0
    · have hleast := h.maxStale.concat (t := some q) hq
      have hsome := deltas_concat_ne stales (t := some q) hq
      rw [if_pos hq]
      exact ⟨h.maxAge, h.minFresh, hleast, iff_of_true rfl hset,
        iff_of_false Bool.false_ne_true (fun hany => hsome hany.2), iff_of_true rfl hbounds⟩
    · have hsame := deltas_concat_of_neg stales (t := some q) hq
      rw [if_neg hq]
      refine ⟨h.maxAge, h.minFresh, hsame ▸ h.maxStale, iff_of_true rfl hset, ?_,
        iff_of_true rfl hbounds⟩
      rw [hmem, hsame]
      exact h.maxStaleAny

end Steps

/-! ## The pass computes them -/

/-- The `Cache-Control` lines of a request. -/
def ccLines (headers : List Header) : List Bytes :=
  (headers.filter fun h => h.hash ≠ 0 && h.named cacheControl).map Header.value

/-- The directives with a name, over all lines. -/
def directives (name : Bytes) (headers : List Header) : List (Option Bytes) :=
  (ccLines headers).flatMap (ccTokens name)

/-- What a step preserves with one element more, a loop preserves with its list. -/
theorem foldl_concat {α σ : Type} {f : σ → α → σ} {P : List α → σ → Prop}
    (hstep : ∀ xs s x, P xs s → P (xs ++ [x]) (f s x)) {xs : List α} {s : σ} (h : P xs s)
    (ys : List α) : P (xs ++ ys) (ys.foldl f s) := by
  induction ys generalizing xs s with
  | nil =>
    rw [List.append_nil]
    exact h
  | cons y ys ih =>
    have hys := ih (hstep xs s y h)
    rwa [List.append_assoc] at hys

/-- What a header adds to the directives with a name. -/
theorem directives_concat (name : Bytes) (headers : List Header) (h : Header) :
    directives name (headers ++ [h]) = directives name headers ++
      if h.hash ≠ 0 ∧ h.named cacheControl = true then ccTokens name h.value else [] := by
  rw [directives, ccLines, List.filter_append, List.map_append, List.flatMap_append, List.filter_cons]
  by_cases hline : h.hash ≠ 0 ∧ h.named cacheControl = true
  · rw [if_pos (by simpa using hline), if_pos hline, List.filter_nil, List.map_cons, List.map_nil,
      List.flatMap_cons, List.flatMap_nil, List.append_nil]
    rfl
  · rw [if_neg (by simpa using hline), if_neg hline]
    rfl

theorem Merged.congr {ages freshs stales : List (Option Bytes)} {cc cc' : ReqCc}
    (h : Merged ages freshs stales cc) (hbounds : cc'.bounds = cc.bounds) :
    Merged ages freshs stales cc' := by
  obtain ⟨hage, hfresh, hstale, hset, hany, hflag⟩ := Bounds.mk.inj hbounds
  exact ⟨hage ▸ h.maxAge, hfresh ▸ h.minFresh, hstale ▸ h.maxStale, hset ▸ h.maxStaleSet,
    hany ▸ h.maxStaleAny, hflag ▸ h.hasBounds⟩

theorem Merged.line {ages freshs stales : List (Option Bytes)} {cc : ReqCc}
    (h : Merged ages freshs stales cc) (v : Bytes) :
    Merged (ages ++ ccTokens Policy.maxAge v) (freshs ++ ccTokens RequestCc.minFresh v)
      (stales ++ ccTokens RequestCc.maxStale v) (mergeLine cc v) := by
  have hages : ∀ {cc}, Merged ages freshs stales cc → Merged (ages ++ ccTokens Policy.maxAge v)
      freshs stales ((ccTokens Policy.maxAge v).foldl mergeMaxAge cc) := fun hcc =>
    foldl_concat (P := fun ts cc => Merged ts freshs stales cc) (fun _ _ t h => h.maxAge_step t) hcc _
  have hfreshs : ∀ {ages cc}, Merged ages freshs stales cc →
      Merged ages (freshs ++ ccTokens RequestCc.minFresh v) stales
        ((ccTokens RequestCc.minFresh v).foldl mergeMinFresh cc) := fun hcc =>
    foldl_concat (P := fun ts cc => Merged _ ts stales cc) (fun _ _ t h => h.minFresh_step t) hcc _
  have hstales : ∀ {ages freshs cc}, Merged ages freshs stales cc →
      Merged ages freshs (stales ++ ccTokens RequestCc.maxStale v)
        ((ccTokens RequestCc.maxStale v).foldl mergeMaxStale cc) := fun hcc =>
    foldl_concat (P := fun ts cc => Merged _ _ ts cc) (fun _ _ t h => h.maxStale_step t) hcc _
  refine hstales (hfreshs (hages (h.congr ?_)))
  split_ifs <;> rfl

/-- **The pass merges the directives of the request.** -/
theorem resolveReqCc_merged (headers : List Header) :
    Merged (directives Policy.maxAge headers) (directives RequestCc.minFresh headers)
      (directives RequestCc.maxStale headers) (resolveReqCc headers) := by
  have hstart : Merged (directives Policy.maxAge []) (directives RequestCc.minFresh [])
      (directives RequestCc.maxStale [])
      ⟨none, none, false, false, false, -1, -1, -1, false, false, false⟩ := by
    refine ⟨Or.inl ⟨rfl, rfl⟩, Or.inl ⟨rfl, rfl⟩, Or.inl ⟨rfl, rfl⟩, ?_, ?_, ?_⟩ <;>
      simp [deltas, directives, ccLines]
  have hstep : ∀ (hs : List Header) (cc : ReqCc) (h : Header),
      Merged (directives Policy.maxAge hs) (directives RequestCc.minFresh hs)
        (directives RequestCc.maxStale hs) cc →
      Merged (directives Policy.maxAge (hs ++ [h])) (directives RequestCc.minFresh (hs ++ [h]))
        (directives RequestCc.maxStale (hs ++ [h])) (mergeHeader cc h) := by
    intro hs cc h hcc
    rw [directives_concat, directives_concat, directives_concat, mergeHeader]
    by_cases hhash : h.hash = 0
    · have hno : ¬ (h.hash ≠ 0 ∧ h.named cacheControl = true) := fun hline => hline.1 hhash
      rw [if_neg hno, if_neg hno, if_neg hno, List.append_nil, List.append_nil, List.append_nil,
        if_pos hhash]
      exact hcc
    · rw [if_neg hhash]
      by_cases hname : h.named cacheControl = true
      · rw [if_pos ⟨hhash, hname⟩, if_pos ⟨hhash, hname⟩, if_pos ⟨hhash, hname⟩, if_pos hname]
        exact hcc.line h.value
      · have hno : ¬ (h.hash ≠ 0 ∧ h.named cacheControl = true) := fun hline => hname hline.2
        rw [if_neg hno, if_neg hno, if_neg hno, List.append_nil, List.append_nil, List.append_nil,
          if_neg hname]
        split
        · exact ⟨hcc.maxAge, hcc.minFresh, hcc.maxStale, hcc.maxStaleSet, hcc.maxStaleAny,
            hcc.hasBounds⟩
        · exact hcc
  exact foldl_concat (P := fun hs cc => Merged (directives Policy.maxAge hs)
    (directives RequestCc.minFresh hs) (directives RequestCc.maxStale hs) cc) hstep hstart headers

/-! ## The order -/

theorem nil_iff_of_perm {α : Type} {xs ys : List α} (h : xs.Perm ys) : xs = [] ↔ ys = [] := by
  constructor
  · rintro rfl
    exact h.symm.eq_nil
  · rintro rfl
    exact h.eq_nil

theorem deltas_perm {ts us : List (Option Bytes)} (h : ts.Perm us) : (deltas ts).Perm (deltas us) :=
  (h.map tokenDelta).filter _

theorem Least.unique {ds es : List Time} {m n : Time} (hm : Least ds m) (hn : Least es n)
    (h : ds.Perm es) : m = n := by
  have hset : {d | d ∈ es} = {d | d ∈ ds} := Set.ext fun d => h.symm.mem_iff
  rcases hm with ⟨hnil, rfl⟩ | hm
  · rcases hn with ⟨-, rfl⟩ | hn
    · rfl
    · rw [hset, hnil] at hn
      exact absurd hn.1 List.not_mem_nil
  · rcases hn with ⟨hnil, -⟩ | hn
    · rw [← hset, hnil] at hm
      exact absurd hm.1 List.not_mem_nil
    · rw [hset] at hn
      exact hm.unique hn

theorem Greatest.unique {ds es : List Time} {m n : Time} (hm : Greatest ds m) (hn : Greatest es n)
    (h : ds.Perm es) : m = n := by
  have hset : {d | d ∈ es} = {d | d ∈ ds} := Set.ext fun d => h.symm.mem_iff
  rcases hm with ⟨hnil, rfl⟩ | hm
  · rcases hn with ⟨-, rfl⟩ | hn
    · rfl
    · rw [hset, hnil] at hn
      exact absurd hn.1 List.not_mem_nil
  · rcases hn with ⟨hnil, -⟩ | hn
    · rw [← hset, hnil] at hm
      exact absurd hm.1 List.not_mem_nil
    · rw [hset] at hn
      exact hm.unique hn

/-- **The order of the directives does not matter.** -/
theorem Merged.bounds_eq {ages ages' freshs freshs' stales stales' : List (Option Bytes)}
    {cc cc' : ReqCc} (h : Merged ages freshs stales cc) (h' : Merged ages' freshs' stales' cc')
    (hages : ages.Perm ages') (hfreshs : freshs.Perm freshs') (hstales : stales.Perm stales') :
    cc.bounds = cc'.bounds := by
  have hnil : ∀ {ts us : List (Option Bytes)}, ts.Perm us → (deltas ts = [] ↔ deltas us = []) :=
    fun hperm => nil_iff_of_perm (deltas_perm hperm)
  have hset : cc.maxStaleSet = cc'.maxStaleSet := by
    rw [Bool.eq_iff_iff, h.maxStaleSet, h'.maxStaleSet, ne_eq, ne_eq, nil_iff_of_perm hstales]
  have hany : cc.maxStaleAny = cc'.maxStaleAny := by
    rw [Bool.eq_iff_iff, h.maxStaleAny, h'.maxStaleAny, hstales.mem_iff, hnil hstales]
  have hbounds : cc.hasBounds = cc'.hasBounds := by
    rw [Bool.eq_iff_iff, h.hasBounds, h'.hasBounds, ne_eq, ne_eq, ne_eq, ne_eq, ne_eq, ne_eq,
      nil_iff_of_perm hstales, hnil hages, hnil hfreshs]
  rw [ReqCc.bounds, ReqCc.bounds, h.maxAge.unique h'.maxAge (deltas_perm hages),
    h.minFresh.unique h'.minFresh (deltas_perm hfreshs),
    h.maxStale.unique h'.maxStale (deltas_perm hstales), hset, hany, hbounds]

/-! ## The text of a line -/

/-- Where the quotes of a text leave the scan. -/
def quoteEnd : Quote → Bytes → Quote
  | q, [] => q
  | .escaped, _ :: s => quoteEnd .quoted s
  | .quoted, c :: s =>
      if c = 92 then quoteEnd .escaped s else if c = 34 then quoteEnd .plain s else quoteEnd .quoted s
  | .plain, c :: s => if c = 34 then quoteEnd .quoted s else quoteEnd .plain s

/-- A text whose quotes are closed. -/
def Balanced (t : Bytes) : Prop := quoteEnd .plain t = .plain

/-- What follows a text is cut from where its quotes leave the scan. -/
theorem ccSplit_append (q : Quote) (cur t : Bytes) :
    ∃ front last, ∀ s, ccSplit q cur (t ++ s) = front ++ ccSplit (quoteEnd q t) last s := by
  induction t generalizing q cur with
  | nil => exact ⟨[], cur, fun s => by cases q <;> rfl⟩
  | cons c t ih =>
    cases q with
    | escaped => exact ih .quoted (cur ++ [c])
    | quoted =>
      by_cases hescape : c = 92
      · obtain ⟨front, last, hall⟩ := ih .escaped (cur ++ [c])
        refine ⟨front, last, fun s => ?_⟩
        rw [List.cons_append, ccSplit, quoteEnd, if_pos hescape, if_pos hescape]
        exact hall s
      by_cases hquote : c = 34
      · obtain ⟨front, last, hall⟩ := ih .plain (cur ++ [c])
        refine ⟨front, last, fun s => ?_⟩
        rw [List.cons_append, ccSplit, quoteEnd, if_neg hescape, if_neg hescape, if_pos hquote,
          if_pos hquote]
        exact hall s
      · obtain ⟨front, last, hall⟩ := ih .quoted (cur ++ [c])
        refine ⟨front, last, fun s => ?_⟩
        rw [List.cons_append, ccSplit, quoteEnd, if_neg hescape, if_neg hescape, if_neg hquote,
          if_neg hquote]
        exact hall s
    | plain =>
      by_cases hquote : c = 34
      · obtain ⟨front, last, hall⟩ := ih .quoted (cur ++ [c])
        refine ⟨front, last, fun s => ?_⟩
        rw [List.cons_append, ccSplit, quoteEnd, if_pos hquote, if_pos hquote]
        exact hall s
      by_cases hcomma : c = 44
      · obtain ⟨front, last, hall⟩ := ih .plain []
        refine ⟨cur :: front, last, fun s => ?_⟩
        rw [List.cons_append, ccSplit, quoteEnd, if_neg hquote, if_neg hquote, if_pos hcomma, hall s]
        rfl
      · obtain ⟨front, last, hall⟩ := ih .plain (cur ++ [c])
        refine ⟨front, last, fun s => ?_⟩
        rw [List.cons_append, ccSplit, quoteEnd, if_neg hquote, if_neg hquote, if_neg hcomma]
        exact hall s

/-- **A comma after closed quotes ends a directive.** -/
theorem ccSplit_comma {t : Bytes} (h : Balanced t) (s : Bytes) :
    ccSplit .plain [] (t ++ 44 :: s) = ccSplit .plain [] t ++ ccSplit .plain [] s := by
  obtain ⟨front, last, hall⟩ := ccSplit_append .plain [] t
  have halone := hall []
  rw [List.append_nil, h] at halone
  rw [hall, halone, h, List.append_assoc]
  rfl

theorem isLws_plain {c : UInt8} (h : isLws c = true) : c ≠ 34 ∧ c ≠ 44 := by
  refine ⟨?_, ?_⟩ <;> rintro rfl <;> exact absurd h (by decide)

/-- Blanks outside quotes are part of the directive that they stand in. -/
theorem ccSplit_blanks {bs : Bytes} (h : ∀ c ∈ bs, isLws c = true) (cur s : Bytes) :
    ccSplit .plain cur (bs ++ s) = ccSplit .plain (cur ++ bs) s := by
  induction bs generalizing cur with
  | nil => rw [List.nil_append, List.append_nil]
  | cons c bs ih =>
    obtain ⟨hc, hbs⟩ := List.forall_mem_cons.1 h
    obtain ⟨hquote, hcomma⟩ := isLws_plain hc
    rw [List.cons_append, ccSplit, if_neg hquote, if_neg hcomma, ih hbs, List.append_assoc]
    rfl

/-- What was begun stands in front of the first directive. -/
theorem ccSplit_begun (q : Quote) (cur s : Bytes) :
    ∃ first rest, ∀ front, ccSplit q (front ++ cur) s = (front ++ first) :: rest := by
  induction s generalizing q cur with
  | nil => exact ⟨cur, [], fun front => by cases q <;> rfl⟩
  | cons c s ih =>
    have hstep : ∀ q', ∃ first rest, ∀ front : Bytes,
        ccSplit q' ((front ++ cur) ++ [c]) s = (front ++ first) :: rest := by
      intro q'
      obtain ⟨first, rest, hall⟩ := ih q' (cur ++ [c])
      exact ⟨first, rest, fun front => by rw [List.append_assoc, hall front]⟩
    cases q with
    | escaped => exact hstep .quoted
    | quoted =>
      by_cases hescape : c = 92
      · simp only [ccSplit, if_pos hescape]
        exact hstep .escaped
      by_cases hquote : c = 34
      · simp only [ccSplit, if_neg hescape, if_pos hquote]
        exact hstep .plain
      · simp only [ccSplit, if_neg hescape, if_neg hquote]
        exact hstep .quoted
    | plain =>
      by_cases hquote : c = 34
      · simp only [ccSplit, if_pos hquote]
        exact hstep .quoted
      by_cases hcomma : c = 44
      · simp only [ccSplit, if_neg hquote, if_pos hcomma]
        exact ⟨cur, _, fun _ => rfl⟩
      · simp only [ccSplit, if_neg hquote, if_neg hcomma]
        exact hstep .plain

/-- The directives of a text. -/
def pieces (t : Bytes) : List Bytes := (ccSplit .plain [] t).map trimLws

theorem rdropWhile_append_blanks {bs : Bytes} (h : ∀ c ∈ bs, isLws c = true) (x : Bytes) :
    (x ++ bs).rdropWhile isLws = x.rdropWhile isLws := by
  have hrev : ∀ c ∈ bs.reverse, isLws c = true := fun c hc => h c (List.mem_reverse.1 hc)
  rw [List.rdropWhile, List.reverse_append, List.dropWhile_append_of_pos hrev, List.rdropWhile]

theorem trimLws_lead {bs : Bytes} (h : ∀ c ∈ bs, isLws c = true) (x : Bytes) :
    trimLws (bs ++ x) = trimLws x := by
  rw [trimLws, List.dropWhile_append_of_pos h, trimLws]

theorem trimLws_trail {bs : Bytes} (h : ∀ c ∈ bs, isLws c = true) (x : Bytes) :
    trimLws (x ++ bs) = trimLws x := by
  rw [trimLws, trimLws, List.dropWhile_append]
  split
  · rename_i hnil
    rw [List.isEmpty_iff] at hnil
    rw [hnil, List.dropWhile_eq_nil_iff.2 h]
  · exact rdropWhile_append_blanks h _

/-- What is trimmed off are blanks. -/
theorem trimLws_split (t : Bytes) : ∃ lead trail : Bytes, (∀ c ∈ lead, isLws c = true) ∧
    (∀ c ∈ trail, isLws c = true) ∧ t = lead ++ (trimLws t ++ trail) := by
  refine ⟨t.takeWhile isLws, (t.dropWhile isLws).rtakeWhile isLws,
    fun c hc => List.mem_takeWhile_imp hc, fun c hc => ?_, ?_⟩
  · exact List.mem_rtakeWhile_imp hc
  · rw [trimLws, List.rdropWhile_append_rtakeWhile, List.takeWhile_append_dropWhile]

theorem quoteEnd_append (q : Quote) (s t : Bytes) :
    quoteEnd q (s ++ t) = quoteEnd (quoteEnd q s) t := by
  induction s generalizing q with
  | nil => cases q <;> rfl
  | cons c s ih =>
    cases q with
    | escaped => exact ih .quoted
    | quoted =>
      rw [List.cons_append, quoteEnd, quoteEnd, ih, ih, ih]
      split_ifs <;> rfl
    | plain =>
      rw [List.cons_append, quoteEnd, quoteEnd, ih, ih]
      split_ifs <;> rfl

theorem quoteEnd_blanks {bs : Bytes} (h : ∀ c ∈ bs, isLws c = true) (q : Quote) :
    quoteEnd q bs = .plain ↔ q = .plain := by
  induction bs generalizing q with
  | nil => cases q <;> exact Iff.rfl
  | cons c bs ih =>
    obtain ⟨hc, hbs⟩ := List.forall_mem_cons.1 h
    obtain ⟨hquote, -⟩ := isLws_plain hc
    have hescape : c ≠ 92 := by
      rintro rfl
      exact absurd hc (by decide)
    cases q with
    | escaped =>
      rw [quoteEnd, ih hbs]
      decide
    | quoted => rw [quoteEnd, if_neg hescape, if_neg hquote, ih hbs]
    | plain => rw [quoteEnd, if_neg hquote, ih hbs]

theorem pieces_comma {t : Bytes} (h : Balanced t) (s : Bytes) :
    pieces (t ++ 44 :: s) = pieces t ++ pieces s := by
  rw [pieces, ccSplit_comma h, List.map_append]
  rfl

theorem pieces_lead {bs : Bytes} (h : ∀ c ∈ bs, isLws c = true) (s : Bytes) :
    pieces (bs ++ s) = pieces s := by
  obtain ⟨first, rest, hbegun⟩ := ccSplit_begun .plain [] s
  have hfirst := hbegun []
  have hlonger := hbegun bs
  rw [List.append_nil, List.nil_append] at hfirst
  rw [List.append_nil] at hlonger
  rw [pieces, ccSplit_blanks h, List.nil_append, hlonger, pieces, hfirst, List.map_cons,
    List.map_cons, trimLws_lead h]

/-- **Blanks around a text do not change its directives.** -/
theorem pieces_trim {t : Bytes} (h : Balanced t) : pieces (trimLws t) = pieces t := by
  obtain ⟨lead, trail, hlead, htrail, hsplit⟩ := trimLws_split t
  have hinner : Balanced (trimLws t) := by
    rw [hsplit, Balanced, quoteEnd_append, quoteEnd_append, quoteEnd_blanks htrail,
      (quoteEnd_blanks hlead .plain).2 rfl] at h
    exact h
  have htail : pieces (trimLws t ++ trail) = pieces (trimLws t) := by
    obtain ⟨front, last, hall⟩ := ccSplit_append .plain [] (trimLws t)
    have halone := hall []
    have hlonger := hall trail
    have hblank := ccSplit_blanks htrail last []
    rw [List.append_nil] at halone hblank
    rw [pieces, pieces, halone, hlonger, hinner, hblank]
    simp only [ccSplit, List.map_append, List.map_cons, List.map_nil, trimLws_trail htrail]
  have hfront : pieces t = pieces (trimLws t ++ trail) := by
    conv_lhs => rw [hsplit]
    rw [pieces_lead hlead]
  rw [hfront, htail]

theorem ccTokens_eq (name v : Bytes) :
    ccTokens name v = ((pieces v).filter (tokenNamed name)).map tokenValue := rfl

/-- An empty text has no directive with a name. -/
theorem ccTokens_nil {name : Bytes} (hname : name ≠ []) : ccTokens name [] = [] := by
  have hlen : (0 == name.length) = false := by
    rw [beq_eq_false_iff_ne]
    exact Nat.ne_of_lt (List.length_pos_of_ne_nil hname)
  have hnot : tokenNamed name [] = false := by
    rw [tokenNamed]
    simp [tokenName, hlen]
  have hpieces : pieces [] = [[]] := rfl
  rw [ccTokens_eq, hpieces, List.filter_cons, hnot, if_neg (by decide)]
  rfl

/-- **A line of texts has the directives of the texts.** -/
theorem ccTokens_join {name : Bytes} (hname : name ≠ []) {ts : List Bytes}
    (h : ∀ t ∈ ts, Balanced t) :
    ccTokens name ([44].intercalate ts) = ts.flatMap (ccTokens name) := by
  induction ts with
  | nil => exact ccTokens_nil hname
  | cons t ts ih =>
    obtain ⟨ht, hts⟩ := List.forall_mem_cons.1 h
    cases ts with
    | nil => rw [List.intercalate_singleton, List.flatMap_cons, List.flatMap_nil, List.append_nil]
    | cons u ts =>
      have hjoin : ([44] : Bytes).intercalate (t :: u :: ts) =
          t ++ 44 :: [44].intercalate (u :: ts) := by
        rw [List.intercalate_cons_cons, List.append_assoc]
        rfl
      rw [hjoin, ccTokens_eq, pieces_comma ht, List.filter_append, List.map_append, ← ccTokens_eq,
        ← ccTokens_eq, ih hts]
      rfl

theorem ccTokens_trim {t : Bytes} (h : Balanced t) (name : Bytes) :
    ccTokens name (trimLws t) = ccTokens name t := by
  rw [ccTokens_eq, ccTokens_eq, pieces_trim h]

/-- The directives of a request whose lines are made of these texts. -/
theorem directives_join {name : Bytes} (hname : name ≠ []) {headers : List Header}
    {groups : List (List Bytes)} (hlines : ccLines headers = groups.map ([44].intercalate ·))
    (h : ∀ t ∈ groups.flatten, Balanced t) :
    directives name headers = (groups.flatten.map trimLws).flatMap (ccTokens name) := by
  have hgroups : ∀ g ∈ groups, ∀ t ∈ g, Balanced t := fun g hg t ht =>
    h t (List.mem_flatten.2 ⟨g, hg, ht⟩)
  have htrim : (groups.flatten.map trimLws).flatMap (ccTokens name) =
      groups.flatten.flatMap (ccTokens name) := by
    rw [List.flatMap_map]
    exact List.flatMap_congr fun t ht => ccTokens_trim (h t ht) name
  rw [htrim, directives, hlines, List.flatMap_map, List.flatten_eq_flatMap, List.flatMap_assoc]
  exact List.flatMap_congr fun g hg => ccTokens_join hname (hgroups g hg)

/-! ## The verdict -/

theorem verdict_fresh_iff (cc : ReqCc) (created now freshUntil : Time) :
    (reqServeVerdict cc created now freshUntil).1 = true ↔
      (0 ≤ cc.maxAge → (if now - created < 0 then 0 else now - created) ≤ cc.maxAge) ∧
        (0 ≤ cc.minFresh → cc.minFresh ≤ freshUntil - now) := by
  rw [reqServeVerdict]
  dsimp only
  by_cases hage : cc.maxAge ≥ 0 ∧ (if now - created < 0 then 0 else now - created) > cc.maxAge
  · rw [if_pos hage, ite_self]
    exact iff_of_false Bool.false_ne_true fun h => Int.not_le.2 hage.2 (h.1 hage.1)
  · rw [if_neg hage]
    have hpass : 0 ≤ cc.maxAge → (if now - created < 0 then 0 else now - created) ≤ cc.maxAge :=
      fun hset => Int.not_lt.1 fun hold => hage ⟨hset, hold⟩
    by_cases hfresh : cc.minFresh ≥ 0 ∧ freshUntil - now < cc.minFresh
    · rw [if_pos hfresh]
      exact iff_of_false Bool.false_ne_true fun h => Int.not_le.2 hfresh.2 (h.2 hfresh.1)
    · rw [if_neg hfresh]
      exact iff_of_true rfl ⟨hpass, fun hset => Int.not_lt.1 fun hshort => hfresh ⟨hset, hshort⟩⟩

theorem verdict_stale_iff (cc : ReqCc) (created now freshUntil : Time) :
    (reqServeVerdict cc created now freshUntil).2 = true ↔
      if cc.maxStaleSet then
        cc.maxStaleAny = true ∨ (if now - freshUntil < 0 then 0 else now - freshUntil) ≤ cc.maxStale
      else cc.maxAge < 0 ∧ cc.minFresh < 0 := by
  rw [reqServeVerdict]
  dsimp only
  cases cc.maxStaleSet with
  | true => simp
  | false =>
    simp only [Bool.false_eq_true, if_false]
    by_cases hbound : cc.maxAge ≥ 0 ∨ cc.minFresh ≥ 0
    · rw [if_pos hbound]
      refine iff_of_false Bool.false_ne_true fun h => ?_
      rcases hbound with hage | hfresh
      · exact Int.not_le.2 h.1 hage
      · exact Int.not_le.2 h.2 hfresh
    · rw [if_neg hbound]
      exact iff_of_true rfl ⟨Int.not_le.1 fun h => hbound (Or.inl h),
        Int.not_le.1 fun h => hbound (Or.inr h)⟩

/-- **No verdict is lost without bounds.** -/
theorem verdict_of_no_bounds {ages freshs stales : List (Option Bytes)} {cc : ReqCc}
    (h : Merged ages freshs stales cc) (hnone : cc.hasBounds = false)
    (created now freshUntil : Time) :
    reqServeVerdict cc created now freshUntil = (true, true) := by
  have hno : ¬ (deltas ages ≠ [] ∨ deltas freshs ≠ [] ∨ stales ≠ []) := by
    rw [← h.hasBounds, hnone]
    decide
  rw [not_or, not_or, not_ne_iff, not_ne_iff, not_ne_iff] at hno
  obtain ⟨hages, hfreshs, hstales⟩ := hno
  have hage := h.maxAge.neg_iff.2 hages
  have hfresh := h.minFresh.neg_iff.2 hfreshs
  have hset : cc.maxStaleSet = false := by
    rw [← Bool.not_eq_true, h.maxStaleSet]
    exact fun hsome => hsome hstales
  refine Prod.ext ((verdict_fresh_iff ..).2 ⟨fun h => ?_, fun h => ?_⟩) ((verdict_stale_iff ..).2 ?_)
  · exact absurd hage (Int.not_lt.2 h)
  · exact absurd hfresh (Int.not_lt.2 h)
  · rw [hset, if_neg (by decide)]
    exact ⟨hage, hfresh⟩

theorem Least.le_of_subset {ds es : List Time} {m n : Time} (hm : Least ds m) (hn : Least es n)
    (hnonneg : ∀ d ∈ es, 0 ≤ d) (h : ∀ d ∈ ds, d ∈ es) (hset : 0 ≤ m) : 0 ≤ n ∧ n ≤ m := by
  have hmem : m ∈ ds := by
    rcases hm with ⟨-, rfl⟩ | hm
    · exact absurd hset (by decide)
    · exact hm.1
  rcases hn with ⟨hnil, -⟩ | hn
  · exact absurd (hnil ▸ h m hmem) List.not_mem_nil
  · exact ⟨hnonneg n hn.1, hn.2 (h m hmem)⟩

theorem Greatest.le_of_subset {ds es : List Time} {m n : Time} (hm : Greatest ds m)
    (hn : Greatest es n) (hnonneg : ∀ d ∈ es, 0 ≤ d) (h : ∀ d ∈ ds, d ∈ es) : m ≤ n := by
  rcases hn with ⟨hnil, rfl⟩ | hn
  · rcases hm with ⟨-, rfl⟩ | hm
    · exact le_refl _
    · exact absurd (hnil ▸ h m hm.1) List.not_mem_nil
  · rcases hm with ⟨-, rfl⟩ | hm
    · exact le_trans (by decide) (hnonneg n hn.1)
    · exact hn.2 (h m hm.1)

/-- **More of `max-age` and `min-fresh` allows no more.** -/
theorem verdict_mono {ages ages' freshs freshs' stales stales' : List (Option Bytes)}
    {cc cc' : ReqCc} (h : Merged ages freshs stales cc) (h' : Merged ages' freshs' stales' cc')
    (hages : ∀ t ∈ ages, t ∈ ages') (hfreshs : ∀ t ∈ freshs, t ∈ freshs')
    (hstales : stales.Perm stales') (created now freshUntil : Time) :
    ((reqServeVerdict cc' created now freshUntil).1 = true →
      (reqServeVerdict cc created now freshUntil).1 = true) ∧
    ((reqServeVerdict cc' created now freshUntil).2 = true →
      (reqServeVerdict cc created now freshUntil).2 = true) := by
  have hsub : ∀ {ts us : List (Option Bytes)},
      (∀ t ∈ ts, t ∈ us) → ∀ d ∈ deltas ts, d ∈ deltas us := by
    intro ts us hsub d hd
    obtain ⟨hmem, hpos⟩ := List.mem_filter.1 hd
    obtain ⟨t, ht, rfl⟩ := List.mem_map.1 hmem
    exact List.mem_filter.2 ⟨List.mem_map.2 ⟨t, hsub t ht, rfl⟩, hpos⟩
  have hage : 0 ≤ cc.maxAge → 0 ≤ cc'.maxAge ∧ cc'.maxAge ≤ cc.maxAge :=
    h.maxAge.le_of_subset h'.maxAge (fun _ => nonneg_of_mem_deltas) (hsub hages)
  have hfresh : cc.minFresh ≤ cc'.minFresh :=
    h.minFresh.le_of_subset h'.minFresh (fun _ => nonneg_of_mem_deltas) (hsub hfreshs)
  have hstale : cc.maxStale = cc'.maxStale := h.maxStale.unique h'.maxStale (deltas_perm hstales)
  have hset : cc.maxStaleSet = cc'.maxStaleSet := by
    rw [Bool.eq_iff_iff, h.maxStaleSet, h'.maxStaleSet, ne_eq, ne_eq, nil_iff_of_perm hstales]
  have hany : cc.maxStaleAny = cc'.maxStaleAny := by
    rw [Bool.eq_iff_iff, h.maxStaleAny, h'.maxStaleAny, hstales.mem_iff,
      nil_iff_of_perm (deltas_perm hstales)]
  constructor
  · rw [verdict_fresh_iff, verdict_fresh_iff]
    rintro ⟨hold, hshort⟩
    refine ⟨fun hpos => ?_, fun hpos => ?_⟩
    · obtain ⟨hpos', hle⟩ := hage hpos
      exact le_trans (hold hpos') hle
    · exact le_trans hfresh (hshort (le_trans hpos hfresh))
  · rw [verdict_stale_iff, verdict_stale_iff, hset, hany, hstale]
    split
    · exact id
    · rintro ⟨hold, hshort⟩
      exact ⟨Int.not_le.1 fun hpos => Int.not_le.2 hold (hage hpos).1, lt_of_le_of_lt hfresh hshort⟩

/-- The `Cache-Control` lines of a request are made of texts with closed quotes: each line of a
group of them, with commas between. -/
structure MadeOf (headers : List Header) (groups : List (List Bytes)) : Prop where
  lines : ccLines headers = groups.map ([44].intercalate ·)
  balanced : ∀ t ∈ groups.flatten, Balanced t

/-- One directive `max-age` or `min-fresh`. -/
structure IsBound (d : Bytes) : Prop where
  balanced : Balanced d
  one : ccSplit .plain [] d = [d]
  named : tokenNamed Policy.maxAge (trimLws d) = true ∨
    tokenNamed RequestCc.minFresh (trimLws d) = true

theorem IsBound.no_stale {d : Bytes} (h : IsBound d) : ccTokens RequestCc.maxStale d = [] := by
  have hpieces : pieces d = [trimLws d] := by
    rw [pieces, h.one]
    rfl
  have hnot : tokenNamed RequestCc.maxStale (trimLws d) = false := by
    rw [← Bool.not_eq_true]
    intro hstale
    have hname : ∀ name, tokenNamed name (trimLws d) = true →
        (tokenName (trimLws d)).map lower = name.map lower := by
      intro name hnamed
      rw [tokenNamed, Bool.and_eq_true, eqFold, beq_iff_eq] at hnamed
      exact of_decide_eq_true (by simpa using hnamed.2)
    rcases h.named with hage | hfresh
    · exact absurd ((hname _ hage).symm.trans (hname _ hstale)) (by decide)
    · exact absurd ((hname _ hfresh).symm.trans (hname _ hstale)) (by decide)
  rw [ccTokens_eq, hpieces, List.filter_cons, hnot, if_neg (by decide)]
  rfl

/-- **The merge of a request's `Cache-Control`.**  The bounds are those of the directives; the
order of these does not matter, nor do the lines they come in; without bounds every entry passes;
and one more `max-age` or `min-fresh` lets no entry pass that did not. -/
theorem request_cc_merge :
    (∀ headers, Merged (directives Policy.maxAge headers) (directives RequestCc.minFresh headers)
      (directives RequestCc.maxStale headers) (resolveReqCc headers)) ∧
    (∀ headers headers' groups groups', MadeOf headers groups → MadeOf headers' groups' →
      (groups.flatten.map trimLws).Perm (groups'.flatten.map trimLws) →
        (resolveReqCc headers).bounds = (resolveReqCc headers').bounds) ∧
    (∀ headers, (resolveReqCc headers).hasBounds = false → ∀ created now freshUntil,
      reqServeVerdict (resolveReqCc headers) created now freshUntil = (true, true)) ∧
    ∀ headers headers' groups groups' d, MadeOf headers groups → MadeOf headers' groups' →
      IsBound d →
      (groups'.flatten.map trimLws).Perm (trimLws d :: groups.flatten.map trimLws) →
      ∀ created now freshUntil,
        ((reqServeVerdict (resolveReqCc headers') created now freshUntil).1 = true →
          (reqServeVerdict (resolveReqCc headers) created now freshUntil).1 = true) ∧
        ((reqServeVerdict (resolveReqCc headers') created now freshUntil).2 = true →
          (reqServeVerdict (resolveReqCc headers) created now freshUntil).2 = true) := by
  have hage : Policy.maxAge ≠ [] := by decide
  have hfresh : RequestCc.minFresh ≠ [] := by decide
  have hstale : RequestCc.maxStale ≠ [] := by decide
  refine ⟨resolveReqCc_merged, fun headers headers' groups groups' h h' hperm => ?_,
    fun headers hnone => verdict_of_no_bounds (resolveReqCc_merged headers) hnone,
    fun headers headers' groups groups' d h h' hd hperm created now freshUntil => ?_⟩
  · have hsame : ∀ name, name ≠ [] → (directives name headers).Perm (directives name headers') := by
      intro name hname
      rw [directives_join hname h.lines h.balanced, directives_join hname h'.lines h'.balanced]
      exact hperm.flatMap_right _
    exact (resolveReqCc_merged headers).bounds_eq (resolveReqCc_merged headers') (hsame _ hage)
      (hsame _ hfresh) (hsame _ hstale)
  · have hmore : ∀ name, name ≠ [] →
        (directives name headers').Perm (ccTokens name d ++ directives name headers) := by
      intro name hname
      have hflat := hperm.flatMap_right (ccTokens name)
      rw [List.flatMap_cons, ccTokens_trim hd.balanced] at hflat
      rw [directives_join hname h.lines h.balanced, directives_join hname h'.lines h'.balanced]
      exact hflat
    have hsub : ∀ name, name ≠ [] → ∀ t ∈ directives name headers, t ∈ directives name headers' :=
      fun name hname t ht => (hmore name hname).mem_iff.2 (List.mem_append_right _ ht)
    have hsame := hmore _ hstale
    rw [hd.no_stale, List.nil_append] at hsame
    exact verdict_mono (resolveReqCc_merged headers) (resolveReqCc_merged headers')
      (hsub _ hage) (hsub _ hfresh) hsame.symm created now freshUntil

/-- A `Cache-Control` line. -/
def ccLine (v : Bytes) : Header := ⟨1, cacheControl, v⟩

/-- `max-age=5`. -/
def fiveSeconds : Bytes := Policy.maxAge ++ lit ['=', '5']

/-- A bare `max-stale`. -/
def anyStale : Bytes := RequestCc.maxStale

/-- `min-fresh=2`. -/
def twoFresh : Bytes := RequestCc.minFresh ++ lit ['=', '2']

/-- `max-age=5` and a bare `max-stale`, in two lines and in one; no header at all; and `min-fresh=2`
beside nothing. -/
theorem request_cc_merge_two_lines :
    (resolveReqCc [ccLine fiveSeconds, ccLine anyStale]).bounds =
      (resolveReqCc [ccLine (anyStale ++ lit [',', ' '] ++ fiveSeconds)]).bounds ∧
    reqServeVerdict (resolveReqCc []) 0 10 5 = (true, true) ∧
    ((reqServeVerdict (resolveReqCc [ccLine twoFresh]) 0 10 12).1 = true →
      (reqServeVerdict (resolveReqCc []) 0 10 12).1 = true) := by
  refine ⟨?_, request_cc_merge.2.2.1 [] (by decide) 0 10 5, ?_⟩
  · exact request_cc_merge.2.1 _ _ [[fiveSeconds], [anyStale]] [[anyStale, 32 :: fiveSeconds]]
      ⟨by decide, by unfold Balanced; decide⟩ ⟨by decide, by unfold Balanced; decide⟩ (by decide)
  · exact (request_cc_merge.2.2.2 [] [ccLine twoFresh] [] [[twoFresh]] twoFresh
      ⟨by decide, by unfold Balanced; decide⟩ ⟨by decide, by unfold Balanced; decide⟩
      ⟨by unfold Balanced; decide, by decide, Or.inr (by decide)⟩ (by decide) 0 10 12).1

end RequestCc
end Http
end CacheTurbo
