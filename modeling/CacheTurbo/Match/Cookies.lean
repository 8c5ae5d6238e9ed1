/-
# Cookie pairs and their predicates

How the pairs of the Cookie lines are judged by the value predicates of the presets
(`ngx_http_cache_turbo_match.c`), in two ways.  The reference walk
(`ngx_http_cache_turbo_cookie_pred`) judges every pair of every line as it comes to
it.  The compiled path first builds an index of the pairs (`_cookie_index`) and
judges that (`_cookie_pred_index_match`); a pair whose name the index has already is
not added to it.

Both parse a line in the same way, which `linePairs` states once; the index is then
the pairs that are the first of their name (`firsts`).
-/

import CacheTurbo.Match.UriTrie
import CacheTurbo.Lib.Incremental
import Mathlib.Data.List.DropRight

namespace CacheTurbo
namespace Match

open Incremental

/-- A space or a tab. -/
def isWs (c : UInt8) : Bool := c == 32 || c == 9

/-- What separates pairs. -/
def isSep (c : UInt8) : Bool := c == 32 || c == 9 || c == 59

/-- `NGX_HTTP_CACHE_TURBO_CVOP_*`. -/
inductive CvOp
  | ne
  | eq
  | nonempty
  deriving DecidableEq, Repr

/-- `ngx_http_cache_turbo_cookie_pred_t`. -/
structure CookiePred where
  nameSuffix : Bytes
  op : CvOp
  value : Option Bytes
  deriving DecidableEq, Repr

/-! ## The reference walk -/

/-- `ngx_http_cache_turbo_name_has_suffix`. -/
def nameHasSuffix (n suffix : Bytes) : Bool :=
  if suffix = [] ∨ n.length < suffix.length then false
  else strncmpEq (n.drop (n.length - suffix.length)) suffix

/-- `ngx_http_cache_turbo_cookie_pred_one_next_pair`: the pair, if there is one, and what is
left. -/
def cookiePredOneNextPair (p : Bytes) : Option Bytes × Bytes :=
  let p := p.dropWhile isSep
  if p = [] then (none, [])
  else
    let name := (p.takeWhile (· ≠ 59)).rdropWhile isWs
    (if name = [] then none else some name, p.dropWhile (· ≠ 59))

/-- What `ngx_http_cache_turbo_cookie_pred_one_split` says of a pair: its name does not match, it
matches and has no value, or it has one. -/
inductive PredSplit
  | error
  | declined
  | ok (value : Bytes)
  deriving DecidableEq, Repr

/-- `ngx_http_cache_turbo_cookie_pred_one_split`. -/
def cookiePredOneSplit (name : Bytes) (pr : CookiePred) : PredSplit :=
  match cut 61 name with
  | none => if nameHasSuffix (name.rdropWhile isWs) pr.nameSuffix then .declined else .error
  | some (n, v) =>
      if nameHasSuffix (n.rdropWhile isWs) pr.nameSuffix then .ok (v.dropWhile isWs) else .error

/-- `ngx_http_cache_turbo_cookie_pred_one_dispatch`. -/
def cookiePredOneDispatch (val : Bytes) (pr : CookiePred) : Bool :=
  match pr.op with
  | .nonempty => decide (0 < val.length)
  | .eq =>
      match pr.value with
      | none => false
      | some v => decide (val.length = v.length) && strncmpEq val v
  | .ne =>
      match pr.value with
      | none => true
      | some v => !(decide (val.length = v.length) && strncmpEq val v)

/-- The loop of `ngx_http_cache_turbo_cookie_pred_one`; every turn takes a byte at least. -/
def cookiePredOneLoop (pr : CookiePred) : ℕ → Bytes → Bool
  | 0, _ => false
  | fuel + 1, p =>
      if p = [] then false
      else
        match cookiePredOneNextPair p with
        | (none, rest) => cookiePredOneLoop pr fuel rest
        | (some name, rest) =>
            match cookiePredOneSplit name pr with
            | .error => cookiePredOneLoop pr fuel rest
            | .declined => true
            | .ok val =>
                if cookiePredOneDispatch val pr then true else cookiePredOneLoop pr fuel rest

/-- `ngx_http_cache_turbo_cookie_pred_one`. -/
def cookiePredOne (data : Bytes) (pr : CookiePred) : Bool := cookiePredOneLoop pr data.length data

/-- `ngx_http_cache_turbo_cookie_pred`. -/
def cookiePred (cookies : List Bytes) (preds : List CookiePred) : Bool :=
  preds.any fun pr => cookies.any fun ck => cookiePredOne ck pr

/-! ## The compiled path -/

/-- `ngx_http_cache_turbo_cookie_pair_t`. -/
structure CookiePair where
  name : Bytes
  value : Bytes
  bare : Bool
  deriving DecidableEq, Repr

/-- `ngx_http_cache_turbo_cookie_index_add`: the first occurrence of a name wins. -/
def cookieIndexAdd (idx : List CookiePair) (pair : CookiePair) : List CookiePair :=
  if idx.any fun p => decide (p.name.length = pair.name.length) && strncmpEq p.name pair.name then
    idx
  else idx ++ [pair]

/-- The loop of `ngx_http_cache_turbo_cookie_index_parse_one`. -/
def cookieIndexParseLoop : ℕ → List CookiePair → Bytes → List CookiePair
  | 0, idx, _ => idx
  | fuel + 1, idx, p =>
      let p := p.dropWhile isSep
      if p = [] then idx
      else
        let pair := (p.takeWhile (· ≠ 59)).rdropWhile isWs
        let rest := p.dropWhile (· ≠ 59)
        if pair = [] then cookieIndexParseLoop fuel idx rest
        else
          match cut 61 pair with
          | none =>
              cookieIndexParseLoop fuel (cookieIndexAdd idx ⟨pair.rdropWhile isWs, [], true⟩) rest
          | some (n, v) =>
              cookieIndexParseLoop fuel
                (cookieIndexAdd idx ⟨n.rdropWhile isWs, v.dropWhile isWs, false⟩) rest

/-- `ngx_http_cache_turbo_cookie_index_parse_one`. -/
def cookieIndexParseOne (idx : List CookiePair) (data : Bytes) : List CookiePair :=
  cookieIndexParseLoop data.length idx data

/-- `ngx_http_cache_turbo_cookie_index`. -/
def cookieIndex (cookies : List Bytes) : List CookiePair := cookies.foldl cookieIndexParseOne []

/-- The test of one pair against one predicate in
`ngx_http_cache_turbo_cookie_pred_index_match`. -/
def predIndexTest (p : CookiePair) (pr : CookiePred) : Bool :=
  if pr.nameSuffix = [] ∨ p.name.length < pr.nameSuffix.length ∨
      strncmpEq (p.name.drop (p.name.length - pr.nameSuffix.length)) pr.nameSuffix = false then false
  else if p.bare then true
  else
    match pr.op with
    | .nonempty => decide (0 < p.value.length)
    | .eq =>
        match pr.value with
        | none => false
        | some v => decide (p.value.length = v.length) && strncmpEq p.value v
    | .ne =>
        match pr.value with
        | none => true
        | some v => decide (p.value.length ≠ v.length) || !strncmpEq p.value v

/-- `ngx_http_cache_turbo_cookie_pred_index_match`. -/
def cookiePredIndexMatch (cookies : List Bytes) (preds : List CookiePred) : Bool :=
  if preds = [] then false
  else (cookieIndex cookies).any fun p => preds.any fun pr => predIndexTest p pr

/-! ## The pairs -/

/-- The name, the value and whether there is no `=`. -/
def splitPair (pair : Bytes) : CookiePair :=
  match cut 61 pair with
  | none => ⟨pair.rdropWhile isWs, [], true⟩
  | some (n, v) => ⟨n.rdropWhile isWs, v.dropWhile isWs, false⟩

/-- The pairs of a line, in their order. -/
def linePairs : ℕ → Bytes → List CookiePair
  | 0, _ => []
  | fuel + 1, p =>
      match cookiePredOneNextPair p with
      | (none, rest) => linePairs fuel rest
      | (some name, rest) => splitPair name :: linePairs fuel rest

/-- The pairs of all Cookie lines. -/
def cookiePairs (cookies : List Bytes) : List CookiePair :=
  cookies.flatMap fun ck => linePairs ck.length ck

/-- **A pair objects** to caching: its name has the suffix of the predicate, and it has no value
or one that the predicate is about. -/
def Objects (preds : List CookiePred) (p : CookiePair) : Prop :=
  ∃ pr ∈ preds, predIndexTest p pr = true

instance (preds : List CookiePred) : DecidablePred (Objects preds) := fun _ =>
  inferInstanceAs (Decidable (∃ _ ∈ _, _))

theorem linePairs_nil (fuel : ℕ) : linePairs fuel [] = [] := by
  induction fuel with
  | zero => rfl
  | succ fuel ih => exact ih

/-- The two tests of a pair are the same. -/
theorem split_test (name : Bytes) (pr : CookiePred) :
    predIndexTest (splitPair name) pr =
      match cookiePredOneSplit name pr with
      | .error => false
      | .declined => true
      | .ok val => cookiePredOneDispatch val pr := by
  have hsuffix : ∀ n : Bytes, (pr.nameSuffix = [] ∨ n.length < pr.nameSuffix.length ∨
      strncmpEq (n.drop (n.length - pr.nameSuffix.length)) pr.nameSuffix = false) ↔
        ¬ nameHasSuffix n pr.nameSuffix = true := fun n => by
    unfold nameHasSuffix
    split
    · tauto
    · rw [Bool.not_eq_true]
      tauto
  unfold splitPair cookiePredOneSplit
  rcases cut 61 name with _ | ⟨n, v⟩
  · dsimp only [predIndexTest]
    by_cases hname : nameHasSuffix (name.rdropWhile isWs) pr.nameSuffix = true
    · rw [if_neg (fun h => (hsuffix _).1 h hname), if_pos hname]
      rfl
    · rw [if_pos ((hsuffix _).2 hname), if_neg hname]
  · dsimp only [predIndexTest]
    by_cases hname : nameHasSuffix (n.rdropWhile isWs) pr.nameSuffix = true
    · rw [if_neg (fun h => (hsuffix _).1 h hname), if_pos hname]
      dsimp only [cookiePredOneDispatch]
      rw [if_neg (by nofun)]
      cases pr.op with
      | nonempty => rfl
      | eq => rfl
      | ne =>
        cases pr.value with
        | none => rfl
        | some w =>
          dsimp only
          rw [Bool.not_and, decide_not]
    · rw [if_pos ((hsuffix _).2 hname), if_neg hname]

/-- **The reference judges every pair of a line.** -/
theorem cookiePredOneLoop_eq (pr : CookiePred) (fuel : ℕ) (p : Bytes) :
    cookiePredOneLoop pr fuel p = (linePairs fuel p).any fun pair => predIndexTest pair pr := by
  induction fuel generalizing p with
  | zero => rfl
  | succ fuel ih =>
    rw [cookiePredOneLoop]
    by_cases hp : p = []
    · subst hp
      rw [if_pos rfl, linePairs_nil]
      rfl
    · rw [if_neg hp, linePairs]
      rcases cookiePredOneNextPair p with ⟨_ | name, rest⟩
      · exact ih rest
      · dsimp only
        rw [List.any_cons, split_test, ← ih rest]
        rcases cookiePredOneSplit name pr with _ | _ | val
        · rfl
        · rfl
        · dsimp only
          cases cookiePredOneDispatch val pr <;> rfl

/-- **The reference bypasses** when any pair of any line objects. -/
theorem cookiePred_iff (cookies : List Bytes) (preds : List CookiePred) :
    cookiePred cookies preds = true ↔ ∃ p ∈ cookiePairs cookies, Objects preds p := by
  unfold cookiePred cookiePairs Objects
  rw [List.any_eq_true]
  constructor
  · rintro ⟨pr, hpr, hany⟩
    obtain ⟨ck, hck, hone⟩ := List.any_eq_true.1 hany
    rw [cookiePredOne, cookiePredOneLoop_eq] at hone
    obtain ⟨p, hp, htest⟩ := List.any_eq_true.1 hone
    exact ⟨p, List.mem_flatMap.2 ⟨ck, hck, hp⟩, pr, hpr, htest⟩
  · rintro ⟨p, hp, pr, hpr, htest⟩
    obtain ⟨ck, hck, hp⟩ := List.mem_flatMap.1 hp
    refine ⟨pr, hpr, List.any_eq_true.2 ⟨ck, hck, ?_⟩⟩
    rw [cookiePredOne, cookiePredOneLoop_eq]
    exact List.any_eq_true.2 ⟨p, hp, htest⟩

/-! ## The index -/

/-- **The pairs that are the first of their name.** -/
def firsts (pairs : List CookiePair) : List CookiePair := pairs.foldl cookieIndexAdd []

/-- The index of a line is the pairs of the line, added one by one. -/
theorem cookieIndexParseLoop_eq (fuel : ℕ) (idx : List CookiePair) (p : Bytes) :
    cookieIndexParseLoop fuel idx p = (linePairs fuel p).foldl cookieIndexAdd idx := by
  induction fuel generalizing idx p with
  | zero => rfl
  | succ fuel ih =>
    rw [cookieIndexParseLoop, linePairs]
    unfold cookiePredOneNextPair
    dsimp only
    by_cases hp : p.dropWhile isSep = []
    · rw [if_pos hp, if_pos hp]
      dsimp only
      rw [linePairs_nil]
      rfl
    · rw [if_neg hp, if_neg hp]
      generalize (p.dropWhile isSep).dropWhile (· ≠ 59) = rest
      generalize ((p.dropWhile isSep).takeWhile (· ≠ 59)).rdropWhile isWs = pair
      by_cases hpair : pair = []
      · rw [if_pos hpair, if_pos hpair]
        exact ih idx rest
      · rw [if_neg hpair, if_neg hpair]
        dsimp only
        rw [List.foldl_cons, splitPair]
        rcases cut 61 pair with _ | ⟨n, v⟩
        · exact ih _ rest
        · exact ih _ rest

theorem cookieIndex_eq (cookies : List Bytes) : cookieIndex cookies = firsts (cookiePairs cookies) := by
  have hlines : ∀ (cs : List Bytes) (idx : List CookiePair),
      cs.foldl cookieIndexParseOne idx = (cookiePairs cs).foldl cookieIndexAdd idx := by
    intro cs
    induction cs with
    | nil => exact fun _ => rfl
    | cons c cs ih =>
      intro idx
      rw [List.foldl_cons, ih, cookieIndexParseOne, cookieIndexParseLoop_eq, cookiePairs,
        cookiePairs, List.flatMap_cons, List.foldl_append]
  exact hlines cookies []

/-- **The compiled path bypasses** when a pair that is the first of its name objects. -/
theorem cookiePredIndexMatch_iff (cookies : List Bytes) (preds : List CookiePred) :
    cookiePredIndexMatch cookies preds = true ↔
      ∃ p ∈ firsts (cookiePairs cookies), Objects preds p := by
  unfold cookiePredIndexMatch Objects
  rw [cookieIndex_eq]
  by_cases hpreds : preds = []
  · subst hpreds
    rw [if_pos rfl]
    constructor
    · nofun
    · rintro ⟨p, -, pr, hpr, -⟩
      cases hpr
  · rw [if_neg hpreds, List.any_eq_true]
    constructor
    · rintro ⟨p, hp, hany⟩
      exact ⟨p, hp, List.any_eq_true.1 hany⟩
    · rintro ⟨p, hp, hany⟩
      exact ⟨p, hp, List.any_eq_true.2 hany⟩

/-- What is in the index is a pair of the request. -/
theorem mem_of_mem_firsts {pairs : List CookiePair} {p : CookiePair} (h : p ∈ firsts pairs) :
    p ∈ pairs := by
  have hgeneral : ∀ (ps idx : List CookiePair), p ∈ ps.foldl cookieIndexAdd idx →
      p ∈ idx ∨ p ∈ ps := by
    intro ps
    induction ps with
    | nil => exact fun idx h => Or.inl h
    | cons q qs ih =>
      intro idx h
      rw [List.foldl_cons] at h
      rcases ih _ h with h | h
      · unfold cookieIndexAdd at h
        split at h
        · exact Or.inl h
        · rcases List.mem_append.1 h with h | h
          · exact Or.inl h
          · exact Or.inr (List.mem_cons.2 (Or.inl (List.mem_singleton.1 h)))
      · exact Or.inr (List.mem_cons_of_mem q h)
  exact (hgeneral pairs [] h).resolve_left List.not_mem_nil

end Match
end CacheTurbo
