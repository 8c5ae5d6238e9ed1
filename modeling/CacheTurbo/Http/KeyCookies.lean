/-
# Folding the key cookies

`ngx_http_cache_turbo_build_key` (`ngx_http_cache_turbo_module.c`) with the allocations it makes: it
looks each key cookie of the location up in the cookie index of the request
(`ngx_http_cache_turbo_match.c`), queues those that are there, sizes them, and writes them behind
the base key.

A lookup that cannot have the index says that the cookie is absent.  So a key is that of the cookies
the request carries (`Http.buildKey`) where the index can be had, and may miss them where it cannot
(`Http.KeyFold`).
-/

import CacheTurbo.Http.PurgeKey
import Mathlib.Data.List.Dedup

namespace CacheTurbo
namespace Http
namespace KeyCookies

open Bytes

/-! ## Allocations -/

/-- The answers of the pool to the allocations that come; after the last one it always has room. -/
abbrev Pool := List Bool

/-- `ngx_palloc`, `ngx_pnalloc`, and what else may fail for want of memory. -/
def palloc : Pool → Bool × Pool
  | [] => (true, [])
  | ok :: pool => (ok, pool)

/-! ## The cookie index -/

/-- How many pairs an index has room for in itself. -/
def inlinePairs : ℕ := 16

/-- `sizeof(ngx_http_cache_turbo_cookie_pair_t)`. -/
def pairSize : ℕ := 40

/-- `NGX_MAX_SIZE_T_VALUE`. -/
def maxSizeT : ℕ := 2 ^ 63 - 1

/-- `ngx_http_cache_turbo_cookie_index_t`. -/
structure Index where
  pairs : List CookiePair
  cap : ℕ
  deriving DecidableEq, Repr

/-- `ngx_http_cache_turbo_cookie_index_add`, `none` for `NGX_ERROR`. -/
def indexAdd (idx : Index) (p : CookiePair) (pool : Pool) : Option Index × Pool :=
  if idx.pairs.any fun q => q.name == p.name then (some idx, pool)
  else if idx.pairs.length = idx.cap then
    if idx.cap > maxSizeT / (2 * pairSize) then (none, pool)
    else
      match palloc pool with
      | (false, pool) => (none, pool)
      | (true, pool) => (some ⟨idx.pairs ++ [p], idx.cap * 2⟩, pool)
  else (some ⟨idx.pairs ++ [p], idx.cap⟩, pool)

/-- The pairs of a line, added one by one. -/
def indexAddAll (idx : Index) : List CookiePair → Pool → Option Index × Pool
  | [], pool => (some idx, pool)
  | p :: ps, pool =>
      match indexAdd idx p pool with
      | (none, pool) => (none, pool)
      | (some idx, pool) => indexAddAll idx ps pool

/-- The pairs of a line. -/
def linePairs (line : Bytes) : List CookiePair := (line.splitOn 59).filterMap cookiePair

/-- `ngx_http_cache_turbo_cookie_index_parse_one`. -/
def indexParseOne (idx : Index) (line : Bytes) (pool : Pool) : Option Index × Pool :=
  indexAddAll idx (linePairs line) pool

/-- The walk over the `Cookie` lines. -/
def indexLines (idx : Index) : List Bytes → Pool → Option Index × Pool
  | [], pool => (some idx, pool)
  | line :: lines, pool =>
      match indexParseOne idx line pool with
      | (none, pool) => (none, pool)
      | (some idx, pool) => indexLines idx lines pool

/-- What the lookups use of `ngx_http_cache_turbo_ctx_t`: the index once `cookie_index_built` is
set. -/
structure Ctx where
  index : Option Index
  deriving DecidableEq, Repr

/-- The installed context of a request, if it has one, and the pool. -/
structure World where
  ctx : Option Ctx
  pool : Pool
  deriving DecidableEq, Repr

/-- `ngx_http_cache_turbo_cookie_index`, `none` for `NULL`. -/
def ctxIndex (r : Request) (w : World) : Option Index × World :=
  match w.ctx with
  | none => (none, w)
  | some ctx =>
      match ctx.index with
      | some idx => (some idx, w)
      | none =>
          match indexLines ⟨[], inlinePairs⟩ r.headersIn.cookie w.pool with
          | (none, pool) => (none, ⟨w.ctx, pool⟩)
          | (some idx, pool) => (some idx, ⟨some ⟨some idx⟩, pool⟩)

/-- `ngx_http_cache_turbo_cookie_index_lookup`, `none` for 0. -/
def indexLookup (r : Request) (name : Bytes) (w : World) : Option Bytes × World :=
  match ctxIndex r w with
  | (none, w) => (none, w)
  | (some idx, w) => ((idx.pairs.find? fun p => p.name == name).map CookiePair.value, w)

/-! ## The fold -/

/-- `ngx_http_cache_turbo_key_cookie_slot_t`. -/
structure Slot where
  name : Bytes
  val : Bytes
  vlen : ℕ
  vfield : ℕ
  deriving DecidableEq, Repr

/-- `ngx_http_cache_turbo_key_cookie_queue`, `none` for `NGX_ERROR`. -/
def keyCookieQueue (slots : List Slot) (name val : Bytes) (w : World) :
    Option (List Slot) × World :=
  match palloc w.pool with
  | (false, pool) => (none, ⟨w.ctx, pool⟩)
  | (true, pool) => (some (slots ++ [⟨name, val, 0, 0⟩]), ⟨w.ctx, pool⟩)

/-- The cookies of a list of names, looked up and queued: the presets' through
`ngx_http_cache_turbo_key_cookie`, whose cursor is the position in the list, and those of
`cache_turbo_key_cookie`. -/
def queueAll (r : Request) : List Bytes → List Slot → World → Option (List Slot) × World
  | [], slots, w => (some slots, w)
  | name :: names, slots, w =>
      match indexLookup r name w with
      | (none, w) => queueAll r names slots w
      | (some val, w) =>
          match keyCookieQueue slots name val w with
          | (none, w) => (none, w)
          | (some slots, w) => queueAll r names slots w

/-- `ngx_http_cache_turbo_key_fold_size`: the size, and the slot with its lengths. -/
def keyFoldSize (s : Slot) : ℕ × Slot :=
  let s :=
    if s.val.length > keyCookieMax then { s with vlen := 0, vfield := keyCookieOversize }
    else { s with vlen := s.val.length, vfield := s.val.length }
  (1 + 4 + 4 + s.name.length + s.vlen, s)

/-- `ngx_http_cache_turbo_key_fold_append`. -/
def foldAppend (p : Bytes) (s : Slot) : Bytes :=
  let p := p ++ [31] ++ putU32 s.name.length ++ putU32 s.vfield ++ s.name
  if s.vlen ≠ 0 then p ++ s.val.take s.vlen else p

/-- `ctx->cache_key`: its length, and the bytes that were written. -/
structure CacheKey where
  len : ℕ
  data : Bytes
  deriving DecidableEq, Repr

/-- `ngx_http_cache_turbo_key_fold_all`, `none` for `NGX_ERROR`. -/
def foldAll (key : CacheKey) (slots : List Slot) (pool : Pool) : Option CacheKey × Pool :=
  if slots.length = 0 then (some key, pool)
  else
    let sized := slots.map keyFoldSize
    match palloc pool with
    | (false, pool) => (none, pool)
    | (true, pool) =>
        (some ⟨key.len + (sized.map Prod.fst).sum, (sized.map Prod.snd).foldl foldAppend key.data⟩,
          pool)

/-- `ngx_http_cache_turbo_build_key`, `none` for `NGX_ERROR`: the base key, the array of slots, the
cookies, the fold and the digest may each fail for want of memory. -/
def buildKey (conf : KeyConf) (r : Request) (w : World) : Option CacheKey :=
  match palloc w.pool with
  | (false, _) => none
  | (true, pool) =>
      let base := keyExpression conf r
      let keyed := conf.autoKeyCookies.length ≠ 0 ∨ conf.keyCookies.length ≠ 0
      match if keyed then palloc pool else (true, pool) with
      | (false, _) => none
      | (true, pool) =>
          match queueAll r conf.autoKeyCookies [] ⟨w.ctx, pool⟩ with
          | (none, _) => none
          | (some slots, w) =>
              match queueAll r conf.keyCookies slots w with
              | (none, _) => none
              | (some slots, w) =>
                  match foldAll ⟨base.length, base⟩ slots w.pool with
                  | (none, _) => none
                  | (some key, pool) => if (palloc pool).1 then some key else none

/-! ## The pairs of a request -/

/-- The pairs of all `Cookie` lines. -/
def cookiePairs (r : Request) : List CookiePair := r.headersIn.cookie.flatMap linePairs

/-- The first value of a name over all `Cookie` lines. -/
def firstValue (r : Request) (name : Bytes) : Option Bytes :=
  ((cookiePairs r).find? fun p => p.name == name).map CookiePair.value

theorem cookieIndex_eq (r : Request) : cookieIndex r = (cookiePairs r).foldl cookieIndexAdd [] := by
  have hlines : ∀ (lines : List Bytes) (idx : List CookiePair),
      lines.foldl cookieIndexParseOne idx = (lines.flatMap linePairs).foldl cookieIndexAdd idx := by
    intro lines
    induction lines with
    | nil => exact fun _ => rfl
    | cons line lines ih =>
      intro idx
      rw [List.foldl_cons, ih, List.flatMap_cons, List.foldl_append]
      rfl
  exact hlines _ _

/-- A pair that is added changes no lookup but that of a new name. -/
theorem find_foldl_add (name : Bytes) (ps idx : List CookiePair) :
    (ps.foldl cookieIndexAdd idx).find? (fun p => p.name == name) =
      (idx ++ ps).find? fun p => p.name == name := by
  induction ps generalizing idx with
  | nil => rw [List.append_nil, List.foldl_nil]
  | cons p ps ih =>
    rw [List.foldl_cons, ih, cookieIndexAdd]
    split
    · rename_i hany
      obtain ⟨q, hq, hqp⟩ := List.any_eq_true.1 hany
      rw [List.find?_append, List.find?_append, List.find?_cons]
      cases hp : p.name == name with
      | false => rfl
      | true =>
        have hname : (q.name == name) = true := by
          rw [beq_iff_eq] at hqp hp ⊢
          exact hqp.trans hp
        have hsome : (idx.find? fun p => p.name == name).isSome = true :=
          List.find?_isSome.2 ⟨q, hq, hname⟩
        obtain ⟨x, hx⟩ := Option.isSome_iff_exists.1 hsome
        rw [hx]
        rfl
    · rw [List.append_assoc]
      rfl

/-- **A lookup finds the first value.** -/
theorem cookieIndexLookup_eq (r : Request) (name : Bytes) :
    cookieIndexLookup r name = firstValue r name := by
  rw [cookieIndexLookup, cookieIndex_eq, find_foldl_add, firstValue, List.nil_append]

/-- How many names the pairs have. -/
def nameCount (r : Request) : ℕ := ((cookiePairs r).map CookiePair.name).dedup.length

theorem mem_names_add {idx : List CookiePair} {p : CookiePair} {name : Bytes} :
    name ∈ (cookieIndexAdd idx p).map CookiePair.name ↔
      name ∈ idx.map CookiePair.name ∨ name = p.name := by
  rw [cookieIndexAdd]
  split
  · rename_i hany
    obtain ⟨q, hq, hqp⟩ := List.any_eq_true.1 hany
    refine ⟨Or.inl, fun h => h.elim id fun heq => ?_⟩
    rw [heq, ← beq_iff_eq.1 hqp]
    exact List.mem_map_of_mem hq
  · rw [List.map_append, List.mem_append, List.map_singleton, List.mem_singleton]

theorem nodup_add {idx : List CookiePair} (h : (idx.map CookiePair.name).Nodup) (p : CookiePair) :
    ((cookieIndexAdd idx p).map CookiePair.name).Nodup := by
  rw [cookieIndexAdd]
  split
  · exact h
  · rename_i hnone
    rw [List.map_append, List.map_singleton, List.nodup_append]
    refine ⟨h, List.nodup_singleton _, fun a ha b hb => ?_⟩
    rw [List.mem_singleton.1 hb]
    rintro rfl
    obtain ⟨q, hq, hqp⟩ := List.mem_map.1 ha
    exact hnone (List.any_eq_true.2 ⟨q, hq, beq_iff_eq.2 hqp⟩)

/-- The index holds one pair of each name. -/
theorem length_cookieIndex (r : Request) : (cookieIndex r).length = nameCount r := by
  have hfold : ∀ ps idx : List CookiePair, (idx.map CookiePair.name).Nodup →
      ((ps.foldl cookieIndexAdd idx).map CookiePair.name).Nodup ∧
        ∀ name, name ∈ (ps.foldl cookieIndexAdd idx).map CookiePair.name ↔
          name ∈ idx.map CookiePair.name ∨ name ∈ ps.map CookiePair.name := by
    intro ps
    induction ps with
    | nil => exact fun idx h => ⟨h, fun name => by simp⟩
    | cons p ps ih =>
      intro idx h
      obtain ⟨hnodup, hmem⟩ := ih _ (nodup_add h p)
      refine ⟨hnodup, fun name => ?_⟩
      rw [List.foldl_cons, hmem, mem_names_add, List.map_cons, List.mem_cons, or_assoc]
  obtain ⟨hnodup, hmem⟩ := hfold (cookiePairs r) [] List.nodup_nil
  have hperm : ((cookieIndex r).map CookiePair.name).Perm
      ((cookiePairs r).map CookiePair.name).dedup := by
    rw [cookieIndex_eq]
    refine (List.perm_ext_iff_of_nodup hnodup (List.nodup_dedup _)).2 fun name => ?_
    rw [hmem, List.mem_dedup]
    exact ⟨fun h => h.resolve_left List.not_mem_nil, Or.inr⟩
  rw [nameCount, ← hperm.length_eq, List.length_map]

/-! ## The index and its allocations -/

theorem indexLines_eq (lines : List Bytes) (idx : Index) (pool : Pool) :
    indexLines idx lines pool = indexAddAll idx (lines.flatMap linePairs) pool := by
  have happend : ∀ (ps qs : List CookiePair) (idx : Index) (pool : Pool),
      indexAddAll idx (ps ++ qs) pool =
        match indexAddAll idx ps pool with
        | (none, pool) => (none, pool)
        | (some idx, pool) => indexAddAll idx qs pool := by
    intro ps qs
    induction ps with
    | nil => exact fun _ _ => rfl
    | cons p ps ih =>
      intro idx pool
      rw [List.cons_append, indexAddAll, indexAddAll]
      rcases indexAdd idx p pool with ⟨_ | idx, pool⟩
      · rfl
      · exact ih idx pool
  induction lines generalizing idx pool with
  | nil => rfl
  | cons line lines ih =>
    rw [indexLines, List.flatMap_cons, happend, indexParseOne]
    rcases indexAddAll idx (linePairs line) pool with ⟨_ | idx, pool⟩
    · rfl
    · exact ih idx pool

/-- What is added is what the index without a bound would add. -/
theorem indexAdd_pairs {idx idx' : Index} {p : CookiePair} {pool pool' : Pool}
    (h : indexAdd idx p pool = (some idx', pool')) : idx'.pairs = cookieIndexAdd idx.pairs p := by
  rw [indexAdd] at h
  rw [cookieIndexAdd]
  split at h
  · rename_i hknown
    cases h
    rw [if_pos hknown]
  · rename_i hnew
    rw [if_neg hnew]
    split at h
    · split at h
      · cases h
      · split at h
        · cases h
        · cases h
          rfl
    · cases h
      rfl

theorem indexAddAll_pairs {ps : List CookiePair} {idx idx' : Index} {pool pool' : Pool}
    (h : indexAddAll idx ps pool = (some idx', pool')) :
    idx'.pairs = ps.foldl cookieIndexAdd idx.pairs := by
  induction ps generalizing idx pool with
  | nil =>
    cases h
    rfl
  | cons p ps ih =>
    rw [indexAddAll] at h
    rcases hadd : indexAdd idx p pool with ⟨_ | mid, rest⟩
    · rw [hadd] at h
      cases h
    · rw [hadd] at h
      rw [ih h, indexAdd_pairs hadd, List.foldl_cons]

/-- Without a full index nothing is allocated. -/
theorem indexAdd_room {idx : Index} (h : idx.pairs.length < idx.cap) (p : CookiePair)
    (pool : Pool) :
    indexAdd idx p pool = (some ⟨cookieIndexAdd idx.pairs p, idx.cap⟩, pool) := by
  rw [indexAdd, cookieIndexAdd]
  split
  · rfl
  · rw [if_neg (Nat.ne_of_lt h)]

theorem indexAdd_known {idx : Index} {p : CookiePair}
    (h : idx.pairs.any (fun q => q.name == p.name) = true) (pool : Pool) :
    indexAdd idx p pool = (some ⟨cookieIndexAdd idx.pairs p, idx.cap⟩, pool) := by
  rw [indexAdd, cookieIndexAdd, if_pos h, if_pos h]

theorem length_le_foldl (ps idx : List CookiePair) :
    idx.length ≤ (ps.foldl cookieIndexAdd idx).length := by
  induction ps generalizing idx with
  | nil => exact Nat.le_refl _
  | cons p ps ih =>
    have hstep : idx.length ≤ (cookieIndexAdd idx p).length := by
      rw [cookieIndexAdd]
      split
      · exact Nat.le_refl _
      · rw [List.length_append]
        exact Nat.le_add_right _ _
    exact hstep.trans (ih _)

/-- A pair of a new name makes the index longer. -/
theorem length_add_new {idx : List CookiePair} {p : CookiePair}
    (h : ¬ idx.any (fun q => q.name == p.name) = true) :
    (cookieIndexAdd idx p).length = idx.length + 1 := by
  rw [cookieIndexAdd, if_neg h, List.length_append]
  rfl

/-- **Pairs that fit are added without an allocation.** -/
theorem indexAddAll_fits {ps : List CookiePair} {idx : Index}
    (h : (ps.foldl cookieIndexAdd idx.pairs).length ≤ idx.cap) (pool : Pool) :
    indexAddAll idx ps pool = (some ⟨ps.foldl cookieIndexAdd idx.pairs, idx.cap⟩, pool) := by
  induction ps generalizing idx with
  | nil => rfl
  | cons p ps ih =>
    have hstep : indexAdd idx p pool = (some ⟨cookieIndexAdd idx.pairs p, idx.cap⟩, pool) := by
      by_cases hknown : idx.pairs.any (fun q => q.name == p.name) = true
      · exact indexAdd_known hknown pool
      · have hgrow := length_le_foldl ps (cookieIndexAdd idx.pairs p)
        rw [length_add_new hknown] at hgrow
        rw [List.foldl_cons] at h
        exact indexAdd_room (by omega) p pool
    rw [indexAddAll, hstep]
    exact ih h

/-- **Pairs that do not fit are lost with the first allocation that fails.** -/
theorem indexAddAll_starved {ps : List CookiePair} {idx : Index} (hcap : idx.pairs.length ≤ idx.cap)
    (hmax : idx.cap ≤ maxSizeT / (2 * pairSize))
    (h : idx.cap < (ps.foldl cookieIndexAdd idx.pairs).length) (pool : Pool) :
    indexAddAll idx ps (false :: pool) = (none, pool) := by
  induction ps generalizing idx with
  | nil => exact absurd h (Nat.not_lt.2 hcap)
  | cons p ps ih =>
    rw [indexAddAll]
    by_cases hknown : idx.pairs.any (fun q => q.name == p.name) = true
    · have hsame : cookieIndexAdd idx.pairs p = idx.pairs := if_pos hknown
      rw [indexAdd_known hknown, hsame]
      rw [List.foldl_cons, hsame] at h
      exact ih hcap hmax h
    · by_cases hfull : idx.pairs.length = idx.cap
      · rw [indexAdd, if_neg hknown, if_pos hfull, if_neg (Nat.not_lt.2 hmax)]
        rfl
      · rw [indexAdd_room (by omega)]
        have hroom : (cookieIndexAdd idx.pairs p).length ≤ idx.cap := by
          rw [length_add_new hknown]
          omega
        exact ih hroom hmax h

/-! ## A lookup -/

/-- A context whose index is built holds that of the request. -/
def Ctx.Ok (r : Request) (ctx : Ctx) : Prop :=
  ∀ idx, ctx.index = some idx → idx.pairs = cookieIndex r

/-- A request in its installed context, if it has one. -/
def World.Ok (r : Request) (w : World) : Prop := ∀ ctx, w.ctx = some ctx → ctx.Ok r

/-- The index can be had without an allocation: it is built, or its pairs fit. -/
def Indexed (r : Request) (ctx : Option Ctx) : Prop :=
  ∃ c, ctx = some c ∧ (c.index.isSome = true ∨ nameCount r ≤ inlinePairs)

theorem ctxIndex_ok {r : Request} {w : World} (h : w.Ok r) :
    (ctxIndex r w).2.Ok r ∧ ∀ idx, (ctxIndex r w).1 = some idx → idx.pairs = cookieIndex r := by
  rw [ctxIndex]
  rcases hctx : w.ctx with _ | c
  · exact ⟨h, fun idx hidx => by cases hidx⟩
  · dsimp only
    rcases hindex : c.index with _ | idx
    · dsimp only
      rw [indexLines_eq, ← cookiePairs]
      rcases hscan : indexAddAll ⟨[], inlinePairs⟩ (cookiePairs r) w.pool with ⟨_ | idx, pool⟩
      · exact ⟨fun c' hc' => h c' (hctx.trans hc'), fun idx hidx => by cases hidx⟩
      · have hpairs : idx.pairs = cookieIndex r :=
          (indexAddAll_pairs hscan).trans (cookieIndex_eq r).symm
        refine ⟨fun c' hc' => ?_, fun idx' hidx' => ?_⟩
        · cases hc'
          exact fun idx' hidx' => by
            cases hidx'
            exact hpairs
        · cases hidx'
          exact hpairs
    · exact ⟨h, fun idx' hidx' => by
        cases hidx'
        exact h c hctx idx hindex⟩

theorem ctxIndex_indexed {r : Request} {w : World} (h : Indexed r w.ctx) :
    (ctxIndex r w).1.isSome = true ∧ Indexed r (ctxIndex r w).2.ctx := by
  obtain ⟨c, hctx, hc⟩ := h
  rw [ctxIndex, hctx]
  dsimp only
  rcases hindex : c.index with _ | idx
  · have hfit : ((cookiePairs r).foldl cookieIndexAdd []).length ≤ inlinePairs := by
      rw [← cookieIndex_eq, length_cookieIndex]
      exact hc.resolve_left (by rw [hindex]; decide)
    dsimp only
    rw [indexLines_eq, ← cookiePairs, indexAddAll_fits hfit]
    exact ⟨rfl, _, rfl, Or.inl rfl⟩
  · exact ⟨rfl, c, hctx, Or.inl (by rw [hindex]; rfl)⟩

/-- A name that the request does not carry is not found; one that it does is, where the index can be
had. -/
theorem indexLookup_exact {r : Request} {name : Bytes} {w : World} (hok : w.Ok r)
    (h : firstValue r name = none ∨ Indexed r w.ctx) :
    (indexLookup r name w).1 = firstValue r name := by
  obtain ⟨-, hpairs⟩ := ctxIndex_ok hok
  rw [indexLookup]
  rcases hindex : ctxIndex r w with ⟨_ | idx, w'⟩
  · rcases h with hnone | hhad
    · exact hnone.symm
    · have hsome := (ctxIndex_indexed hhad).1
      rw [hindex] at hsome
      cases hsome
  · rw [hindex] at hpairs
    rw [← cookieIndexLookup_eq, cookieIndexLookup, ← hpairs idx rfl]

theorem indexLookup_world {r : Request} (name : Bytes) {w : World} :
    (indexLookup r name w).2 = (ctxIndex r w).2 := by
  rw [indexLookup]
  rcases ctxIndex r w with ⟨_ | idx, w'⟩ <;> rfl

/-- **Where the index cannot be had without an allocation, a lookup may miss it.** -/
theorem indexLookup_starved {r : Request} {name : Bytes} {ctx : Option Ctx} (h : ¬ Indexed r ctx)
    (pool : Pool) :
    indexLookup r name ⟨ctx, if ctx = none then pool else false :: pool⟩ = (none, ⟨ctx, pool⟩) := by
  rw [indexLookup, ctxIndex]
  rcases ctx with _ | c
  · rfl
  · have hbuilt : c.index = none := by
      cases hindex : c.index with
      | none => rfl
      | some idx => exact absurd ⟨c, rfl, Or.inl (by rw [hindex]; rfl)⟩ h
    have hmany : inlinePairs < ((cookiePairs r).foldl cookieIndexAdd []).length := by
      rw [← cookieIndex_eq, length_cookieIndex]
      exact Nat.lt_of_not_le fun hle => h ⟨c, rfl, Or.inr hle⟩
    dsimp only
    rw [hbuilt, if_neg (by nofun)]
    dsimp only
    rw [indexLines_eq, ← cookiePairs,
      indexAddAll_starved (Nat.zero_le _) (by decide) hmany]

end KeyCookies
end Http
end CacheTurbo
