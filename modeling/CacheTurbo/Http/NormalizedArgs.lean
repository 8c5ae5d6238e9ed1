/-
# `$cache_turbo_normalized_args`

`ngx_http_cache_turbo_normalized_args_variable` (`ngx_http_cache_turbo_module.c`) rebuilds the query
of a request for a cache key: the arguments that no strip pattern denies, sorted, and the suffix of
the vary classes (`ngx_http_cache_turbo_vary.c`).

The value is one text for one bag of kept arguments (`variable_eq`), so two queries share it exactly
if they keep the same arguments, or are the same where there are too many to sort (`body_eq_iff`).
-/

import CacheTurbo.Http.KeySpec
import CacheTurbo.Lib.Bitmap
import CacheTurbo.Lib.TokenBag
import Mathlib.Data.List.Lex

namespace CacheTurbo
namespace Http
namespace NormalizedArgs

open Bytes TokenBag

/-! ## The strip patterns -/

/-- `ngx_http_cache_turbo_default_strip`. -/
def defaultStrip : List Bytes :=
  [lit ['u', 't', 'm', '_', '*'], lit ['f', 'b', 'c', 'l', 'i', 'd'],
    lit ['g', 'c', 'l', 'i', 'd'], lit ['m', 's', 'c', 'l', 'k', 'i', 'd'],
    lit ['m', 'c', '_', 'e', 'i', 'd'], lit ['_', 'g', 'a'], lit ['r', 'e', 'f'],
    lit ['s', 'i', 'd'], lit ['s', 'e', 's', 's', 'i', 'o', 'n', 'i', 'd'],
    lit ['t', 'm', 'p', '_', '*']]

/-- `ngx_toupper`. -/
def upper (c : UInt8) : UInt8 := if 97 ≤ c ∧ c ≤ 122 then c &&& 223 else c

/-- `ngx_strncasecmp(s1, s2, n) == 0` where both have `n` bytes; a common NUL ends the comparison. -/
def strncasecmpEq : Bytes → Bytes → Bool
  | c :: s1, d :: s2 => lower c == lower d && (lower c == 0 || strncasecmpEq s1 s2)
  | _, _ => true

/-- `ngx_http_cache_turbo_pat_match`. -/
def patMatch (pat name : Bytes) : Bool :=
  if 0 < pat.length ∧ pat.getLast? = some 42 then
    let plen := pat.length - 1
    decide (plen ≤ name.length) && strncasecmpEq (name.take plen) (pat.take plen)
  else name.length == pat.length && strncasecmpEq name pat

/-- `ngx_http_cache_turbo_pat_is_wildcard_all`. -/
def patIsWildcardAll (pat : Bytes) : Bool := pat.length == 0 || pat == [42]

/-- What of `ngx_http_cache_turbo_loc_conf_t` the variable reads; `none` is a value that is not
set. -/
structure LocConf where
  normalizeStrip : Option (List Bytes)
  normalizeVary : Option ℕ
  normalizeMaxArgs : Option ℕ
  stripBitmap : List UInt8
  stripBitmapAll : Bool
  deriving DecidableEq, Repr

/-- One pattern in `ngx_http_cache_turbo_build_strip_bitmap`. -/
def bitmapAdd (conf : LocConf) (pat : Bytes) : LocConf :=
  if patIsWildcardAll pat then { conf with stripBitmapAll := true }
  else
    let b := pat.headD 0
    { conf with
      stripBitmap :=
        Bitmap.set (Bitmap.set conf.stripBitmap (lower b).toNat) (upper b).toNat }

/-- `ngx_http_cache_turbo_build_strip_bitmap`. -/
def buildStripBitmap (conf : LocConf) : LocConf :=
  let conf := { conf with stripBitmap := Bitmap.empty 256, stripBitmapAll := false }
  let conf := defaultStrip.foldl bitmapAdd conf
  match conf.normalizeStrip with
  | none => conf
  | some pats => pats.foldl bitmapAdd conf

/-- `NGX_HTTP_CACHE_TURBO_NORMALIZE_MAX_ARGS_DEFAULT`. -/
def maxArgsDefault : ℕ := 64

/-- `ngx_http_cache_turbo_merge_normalize`. -/
def mergeNormalize (conf prev : LocConf) : LocConf :=
  buildStripBitmap
    { conf with
      normalizeStrip := if conf.normalizeStrip = none then prev.normalizeStrip
        else conf.normalizeStrip
      normalizeVary := if conf.normalizeVary = none then prev.normalizeVary else conf.normalizeVary
      normalizeMaxArgs := some
        (match conf.normalizeMaxArgs with
        | some n => n
        | none => prev.normalizeMaxArgs.getD maxArgsDefault) }

/-- A location: its configuration was merged. -/
structure Location where
  conf : LocConf
  merged : ∃ own parent, conf = mergeNormalize own parent

/-- `ngx_http_cache_turbo_name_denied`. -/
def nameDenied (conf : LocConf) (name : Bytes) : Bool :=
  if conf.stripBitmapAll = false ∧ 0 < name.length
      ∧ Bitmap.get conf.stripBitmap (name.headD 0).toNat = false then false
  else if defaultStrip.any fun pat => patMatch pat name then true
  else
    match conf.normalizeStrip with
    | none => false
    | some pats => pats.any fun pat => patMatch pat name

/-! ## The variable -/

/-- `ngx_memcmp` over the length of the shorter one. -/
def memcmp : Bytes → Bytes → ℤ
  | c :: a, d :: b => if c = d then memcmp a b else (c.toNat : ℤ) - d.toNat
  | _, _ => 0

/-- `ngx_http_cache_turbo_tok_cmp`. -/
def tokCmp (a b : Bytes) : ℤ :=
  let n := min a.length b.length
  let rc := memcmp (a.take n) (b.take n)
  if rc ≠ 0 then rc else (a.length : ℤ) - b.length

/-- An argument is not greater than the next. -/
def TokLe (a b : Bytes) : Prop := ¬ tokCmp a b > 0

instance : DecidableRel TokLe := fun a b => inferInstanceAs (Decidable (¬ tokCmp a b > 0))

/-- `ngx_http_cache_turbo_vary_suffix`. -/
def varySuffix (conf : LocConf) (r : Request) : Bytes :=
  match conf.normalizeVary with
  | none => []
  | some vary =>
      if vary = 0 then []
      else
        axisField (vary &&& varyEncoding != 0) aeTag (aeClass r)
          ++ axisField (vary &&& varyDevice != 0) devTag (deviceClass r)

/-- A value of the variable: the room its buffer has, and what was written. -/
structure VarValue where
  room : ℕ
  data : Bytes
  deriving DecidableEq, Repr

/-- Which allocations of the request's pool succeed: that of the token array, and that of the
value. -/
structure Pool where
  toks : Bool
  out : Bool
  deriving DecidableEq, Repr

/-- `ngx_http_cache_turbo_var_set`. -/
def varSet (pool : Pool) (src : Bytes) : Option VarValue :=
  if src.length = 0 then some ⟨0, []⟩
  else if pool.out then some ⟨src.length, src⟩
  else none

/-- The name of an argument. -/
def argName (t : Bytes) : Bytes := t.takeWhile (· ≠ 61)

/-- The tokens kept so far and the sum of their lengths. -/
structure ArgPass where
  toks : List Bytes
  total : ℕ
  deriving DecidableEq, Repr

/-- One token of the second pass. -/
def passToken (conf : LocConf) (s : ArgPass) (t : Bytes) : ArgPass :=
  if 0 < t.length then
    if nameDenied conf (argName t) then s
    else ⟨s.toks ++ [t], s.total + t.length⟩
  else s

/-- The second pass over the query. -/
def argPass (conf : LocConf) (args : Bytes) : ArgPass :=
  (args.splitOn 38).foldl (passToken conf) ⟨[], 0⟩

/-- How many tokens the array has room for: the first pass counts the separators. -/
def tokRoom (args : Bytes) : ℕ := args.count 38 + 1

/-- Whether so many kept arguments are too many to sort. -/
def overCap (conf : LocConf) (kept : ℕ) : Bool :=
  match conf.normalizeMaxArgs with
  | none => false
  | some n => decide (0 < n) && decide (n < kept)

/-- `ngx_http_cache_turbo_normalized_args_variable`, `none` for `NGX_ERROR`. -/
def normalizedArgsVariable (pool : Pool) (conf : LocConf) (r : Request) : Option VarValue :=
  let vbuf := varySuffix conf r
  if r.args.length = 0 then varSet pool vbuf
  else if pool.toks = false then none
  else
    let s := argPass conf r.args
    if s.toks.length = 0 then varSet pool vbuf
    else if overCap conf s.toks.length then
      let total := 1 + r.args.length + vbuf.length
      if pool.out then some ⟨total, 63 :: r.args ++ vbuf⟩ else none
    else
      let toks := sortInPlace TokLe s.toks
      let total := s.total + (1 + (s.toks.length - 1)) + vbuf.length
      if pool.out then some ⟨total, 63 :: [38].intercalate toks ++ vbuf⟩ else none

/-! ## The bitmap -/

/-- The patterns of a location: the built-in ones and its own. -/
def patterns (conf : LocConf) : List Bytes := defaultStrip ++ conf.normalizeStrip.getD []

/-- A name is denied: some pattern matches it. -/
def denied (conf : LocConf) (name : Bytes) : Bool :=
  (patterns conf).any fun pat => patMatch pat name

/-- A byte is a letter in either case, or the byte itself. -/
theorem eq_lower_or_upper {b c : UInt8} (h : lower c = lower b) : c = lower b ∨ c = upper b := by
  have hback : ∀ n : Fin 256, upper (lower (UInt8.ofFin n)) = upper (UInt8.ofFin n) := by
    decide +kernel
  have hupper : ∀ n : Fin 256,
      UInt8.ofFin n = lower (UInt8.ofFin n) ∨ UInt8.ofFin n = upper (UInt8.ofFin n) := by
    decide +kernel
  rcases hupper c.toFin with hc | hc
  · exact Or.inl (hc.trans h)
  · right
    calc
      c = upper c := hc
      _ = upper (lower c) := (hback c.toFin).symm
      _ = upper (lower b) := by rw [h]
      _ = upper b := hback b.toFin

/-- The bitmap says of each pattern which bytes a name can begin with that it matches. -/
structure Covers (conf : LocConf) (pats : List Bytes) : Prop where
  room : conf.stripBitmap.length = 32
  all : ∀ pat ∈ pats, patIsWildcardAll pat = true → conf.stripBitmapAll = true
  first : ∀ pat ∈ pats, patIsWildcardAll pat = false → ∀ c : UInt8, lower c = lower (pat.headD 0) →
    Bitmap.get conf.stripBitmap c.toNat = true

theorem get_set_byte {bits : List UInt8} (h : bits.length = 32) (b c : UInt8) :
    Bitmap.get (Bitmap.set bits b.toNat) c.toNat = (Bitmap.get bits c.toNat || decide (b = c)) := by
  have hroom : b.toNat / 8 < bits.length := by
    have := b.toNat_lt
    omega
  rw [Bitmap.get_set hroom, decide_eq_decide.2 (UInt8.toNat_inj (a := b) (b := c))]

theorem Covers.add {conf : LocConf} {pats : List Bytes} (h : Covers conf pats) (pat : Bytes) :
    Covers (bitmapAdd conf pat) (pats ++ [pat]) := by
  rw [bitmapAdd]
  by_cases hwild : patIsWildcardAll pat = true
  · rw [if_pos hwild]
    refine ⟨h.room, fun _ _ _ => rfl, fun q hq hnot => ?_⟩
    rcases List.mem_append.1 hq with hmem | hmem
    · exact h.first q hmem hnot
    · rw [List.mem_singleton.1 hmem, hwild] at hnot
      cases hnot
  · rw [if_neg hwild]
    have hlen : (Bitmap.set conf.stripBitmap (lower (pat.headD 0)).toNat).length = 32 :=
      (Bitmap.length_set _ _).trans h.room
    refine ⟨(Bitmap.length_set _ _).trans hlen, fun q hq hall => ?_, fun q hq hnot c hc => ?_⟩
    · rcases List.mem_append.1 hq with hmem | hmem
      · exact h.all q hmem hall
      · exact absurd (List.mem_singleton.1 hmem ▸ hall) hwild
    · rw [get_set_byte hlen, get_set_byte h.room]
      rcases List.mem_append.1 hq with hmem | hmem
      · rw [h.first q hmem hnot c hc]
        rfl
      · rw [List.mem_singleton.1 hmem] at hc
        rcases eq_lower_or_upper hc with hlow | hup
        · rw [decide_eq_true hlow.symm, Bool.or_true, Bool.true_or]
        · rw [decide_eq_true hup.symm, Bool.or_true]

theorem Covers.foldl {conf : LocConf} {pats : List Bytes} (h : Covers conf pats)
    (more : List Bytes) : Covers (more.foldl bitmapAdd conf) (pats ++ more) := by
  induction more generalizing conf pats with
  | nil =>
    rw [List.append_nil]
    exact h
  | cons pat more ih =>
    have hnext := ih (h.add pat)
    rw [List.append_assoc] at hnext
    exact hnext

/-- What the fold does not touch. -/
theorem foldl_bitmapAdd_keeps (pats : List Bytes) (conf : LocConf) :
    (pats.foldl bitmapAdd conf).normalizeStrip = conf.normalizeStrip ∧
      (pats.foldl bitmapAdd conf).normalizeVary = conf.normalizeVary ∧
      (pats.foldl bitmapAdd conf).normalizeMaxArgs = conf.normalizeMaxArgs := by
  induction pats generalizing conf with
  | nil => exact ⟨rfl, rfl, rfl⟩
  | cons pat pats ih =>
    obtain ⟨hstrip, hvary, hmax⟩ := ih (bitmapAdd conf pat)
    rw [List.foldl_cons, hstrip, hvary, hmax, bitmapAdd]
    split <;> exact ⟨rfl, rfl, rfl⟩

theorem buildStripBitmap_covers (conf : LocConf) :
    Covers (buildStripBitmap conf) (patterns (buildStripBitmap conf)) := by
  have hstart : Covers { conf with stripBitmap := Bitmap.empty 256, stripBitmapAll := false } [] :=
    ⟨rfl, fun _ hmem => absurd hmem List.not_mem_nil, fun _ hmem => absurd hmem List.not_mem_nil⟩
  have hdefault := hstart.foldl defaultStrip
  rw [List.nil_append] at hdefault
  obtain ⟨strip, vary, maxArgs, bits, all⟩ := conf
  cases strip with
  | none =>
    have hbuild : buildStripBitmap ⟨none, vary, maxArgs, bits, all⟩ =
        defaultStrip.foldl bitmapAdd ⟨none, vary, maxArgs, Bitmap.empty 256, false⟩ := by
      rw [buildStripBitmap, (foldl_bitmapAdd_keeps _ _).1]
    rw [hbuild, patterns, (foldl_bitmapAdd_keeps _ _).1, Option.getD_none, List.append_nil]
    exact hdefault
  | some pats =>
    have hbuild : buildStripBitmap ⟨some pats, vary, maxArgs, bits, all⟩ =
        pats.foldl bitmapAdd
          (defaultStrip.foldl bitmapAdd ⟨some pats, vary, maxArgs, Bitmap.empty 256, false⟩) := by
      rw [buildStripBitmap, (foldl_bitmapAdd_keeps _ _).1]
    rw [hbuild, patterns, (foldl_bitmapAdd_keeps _ _).1, (foldl_bitmapAdd_keeps _ _).1,
      Option.getD_some]
    exact hdefault.foldl pats

theorem Location.covers (loc : Location) : Covers loc.conf (patterns loc.conf) := by
  obtain ⟨own, parent, hmerged⟩ := loc.merged
  rw [hmerged, mergeNormalize]
  exact buildStripBitmap_covers _

/-- Texts that compare equal begin with one letter. -/
theorem head_of_strncasecmpEq {c d : UInt8} {s t : Bytes}
    (h : strncasecmpEq (c :: s) (d :: t) = true) :
    lower c = lower d := by
  rw [strncasecmpEq, Bool.and_eq_true, beq_iff_eq] at h
  exact h.1

/-- A pattern that is no wildcard for everything matches only names that begin as it does. -/
theorem head_of_patMatch {pat name : Bytes} (hwild : patIsWildcardAll pat = false)
    (h : patMatch pat name = true) :
    0 < name.length ∧ lower (name.headD 0) = lower (pat.headD 0) := by
  rw [patIsWildcardAll, Bool.or_eq_false_iff, beq_eq_false_iff_ne, beq_eq_false_iff_ne] at hwild
  obtain ⟨hlen, hstar⟩ := hwild
  obtain ⟨d, pat, rfl⟩ :=
    List.exists_cons_of_ne_nil (List.length_pos_iff.1 (Nat.pos_of_ne_zero hlen))
  rw [patMatch] at h
  split at h
  · rename_i hlast
    have hmore : pat ≠ [] := by
      rintro rfl
      exact hstar (congrArg (fun x => [x]) (Option.some.inj hlast.2))
    obtain ⟨e, pat, rfl⟩ := List.exists_cons_of_ne_nil hmore
    cases name with
    | nil =>
      rw [Bool.and_eq_true] at h
      exact absurd (of_decide_eq_true h.1) (by simp)
    | cons c name =>
      rw [Bool.and_eq_true] at h
      exact ⟨Nat.succ_pos _, head_of_strncasecmpEq h.2⟩
  · cases name with
    | nil =>
      rw [Bool.and_eq_true, beq_iff_eq] at h
      cases h.1
    | cons c name =>
      rw [Bool.and_eq_true] at h
      exact ⟨Nat.succ_pos _, head_of_strncasecmpEq h.2⟩

/-- **The bitmap changes no verdict.** -/
theorem nameDenied_eq (loc : Location) (name : Bytes) :
    nameDenied loc.conf name = denied loc.conf name := by
  have hwalk : (if defaultStrip.any fun pat => patMatch pat name then true
      else
        match loc.conf.normalizeStrip with
        | none => false
        | some pats => pats.any fun pat => patMatch pat name) = denied loc.conf name := by
    rw [denied, patterns, List.any_append]
    cases loc.conf.normalizeStrip with
    | none => cases defaultStrip.any fun pat => patMatch pat name <;> rfl
    | some pats => cases defaultStrip.any fun pat => patMatch pat name <;> rfl
  rw [nameDenied]
  split
  · rename_i hskip
    obtain ⟨hall, hpos, hbit⟩ := hskip
    symm
    rw [denied, List.any_eq_false]
    intro pat hpat hmatch
    by_cases hwild : patIsWildcardAll pat = true
    · rw [loc.covers.all pat hpat hwild] at hall
      cases hall
    · rw [Bool.not_eq_true] at hwild
      rw [loc.covers.first pat hpat hwild _ (head_of_patMatch hwild hmatch).2] at hbit
      cases hbit
  · exact hwalk

/-! ## The order -/

/-- Byte order: the first byte that differs decides, else the length. -/
def ByteLe (a b : Bytes) : Prop := a.map UInt8.toNat ≤ b.map UInt8.toNat

instance : DecidableRel ByteLe := fun a b =>
  inferInstanceAs (Decidable (a.map UInt8.toNat ≤ b.map UInt8.toNat))

instance : IsTrans Bytes ByteLe := ⟨fun _ _ _ hab hbc => le_trans hab hbc⟩

instance : Std.Total ByteLe := ⟨fun _ _ => le_total _ _⟩

instance : Std.Antisymm ByteLe :=
  ⟨fun _ _ hab hba =>
    List.map_injective_iff.2 (fun _ _ h => UInt8.toNat_inj.1 h) (le_antisymm hab hba)⟩

theorem byteLe_cons {c d : UInt8} {a b : Bytes} :
    ByteLe (c :: a) (d :: b) ↔ c.toNat < d.toNat ∨ (c = d ∧ ByteLe a b) := by
  rw [ByteLe, ByteLe, ← not_lt, ← not_lt, List.map_cons, List.map_cons, List.cons_lt_cons_iff,
    ← UInt8.toNat_inj]
  rcases Nat.lt_trichotomy c.toNat d.toNat with h | h | h
  · simp [h, Nat.lt_asymm, Nat.ne_of_gt]
  · simp [h]
  · simp [Nat.lt_asymm h, Nat.ne_of_gt h, h]

theorem tokCmp_cons {c d : UInt8} (a b : Bytes) :
    tokCmp (c :: a) (d :: b) = if c = d then tokCmp a b else (c.toNat : ℤ) - d.toNat := by
  have hmin : min (c :: a).length (d :: b).length = min a.length b.length + 1 :=
    Nat.succ_min_succ ..
  have hlen : ((c :: a).length : ℤ) - (d :: b).length = a.length - b.length := by
    rw [List.length_cons, List.length_cons]
    omega
  rw [tokCmp, hmin, hlen, List.take_succ_cons, List.take_succ_cons, memcmp]
  by_cases h : c = d
  · rw [if_pos h, if_pos h, tokCmp]
  · have hne : (c.toNat : ℤ) - d.toNat ≠ 0 := by
      rw [← UInt8.toNat_inj] at h
      omega
    rw [if_neg h, if_neg h, if_pos hne]

/-- **The comparison is that of the byte order.** -/
theorem tokLe_iff (a b : Bytes) : TokLe a b ↔ ByteLe a b := by
  induction a generalizing b with
  | nil =>
    have hcmp : tokCmp [] b = 0 - (b.length : ℤ) := by
      rw [tokCmp, List.take_nil, memcmp.eq_2 _ _ (by simp)]
      rfl
    refine iff_of_true ?_ (not_lt.1 (List.not_lt_nil _))
    rw [TokLe, hcmp]
    omega
  | cons c a ih =>
    cases b with
    | nil =>
      refine iff_of_false ?_ (not_le.2 (List.nil_lt_cons _ _))
      rw [TokLe, tokCmp, List.take_nil, memcmp.eq_2 _ _ (by simp)]
      simp
    | cons d b =>
      rw [byteLe_cons, ← ih, TokLe, tokCmp_cons]
      by_cases h : c = d
      · subst h
        rw [if_pos rfl, TokLe]
        exact ⟨fun hle => Or.inr ⟨rfl, hle⟩, fun hle => (hle.resolve_left (Nat.lt_irrefl _)).2⟩
      · have hne := h
        rw [← UInt8.toNat_inj] at hne
        rw [if_neg h]
        constructor
        · intro hle
          left
          omega
        · rintro (hlt | hsame)
          · omega
          · exact absurd hsame.1 h

/-! ## The kept arguments -/

/-- The arguments of a query that are kept: not empty, and no pattern denies the name. -/
def keptArgs (conf : LocConf) (args : Bytes) : List Bytes :=
  (tokens 38 args).filter fun t => !denied conf (argName t)

/-- Too many arguments are kept to sort them. -/
def Over (conf : LocConf) (args : Bytes) : Prop := overCap conf (keptArgs conf args).length = true

instance (conf : LocConf) (args : Bytes) : Decidable (Over conf args) :=
  inferInstanceAs (Decidable (_ = true))

theorem foldl_passToken (loc : Location) (ts : List Bytes) (s : ArgPass) :
    ts.foldl (passToken loc.conf) s =
      ⟨s.toks ++ (ts.filter (· ≠ [])).filter fun t => !denied loc.conf (argName t),
        s.total + (((ts.filter (· ≠ [])).filter fun t => !denied loc.conf (argName t)).map
          List.length).sum⟩ := by
  induction ts generalizing s with
  | nil => simp
  | cons t ts ih =>
    rw [List.foldl_cons, ih, passToken, nameDenied_eq]
    by_cases hnil : t = []
    · have hskip : (t :: ts).filter (fun u => decide (u ≠ [])) =
          ts.filter fun u => decide (u ≠ []) := List.filter_cons_of_neg (by simpa using hnil)
      rw [if_neg (by rw [hnil]; exact Nat.lt_irrefl 0), hskip]
    · have htake : (t :: ts).filter (fun u => decide (u ≠ [])) =
          t :: ts.filter fun u => decide (u ≠ []) := List.filter_cons_of_pos (decide_eq_true hnil)
      rw [if_pos (List.length_pos_iff.2 hnil), htake]
      by_cases hdeny : denied loc.conf (argName t) = true
      · rw [if_pos hdeny, List.filter_cons_of_neg (by rw [hdeny]; decide)]
      · rw [if_neg hdeny, List.filter_cons_of_pos (by simpa using hdeny)]
        simp [Nat.add_assoc]

/-- The pass finds the kept arguments and how long they are together. -/
theorem argPass_eq (loc : Location) (args : Bytes) :
    argPass loc.conf args =
      ⟨keptArgs loc.conf args, ((keptArgs loc.conf args).map List.length).sum⟩ := by
  rw [argPass, foldl_passToken, List.nil_append, Nat.zero_add]
  rfl

/-- The token array has room for them. -/
theorem keptArgs_length_le (conf : LocConf) (args : Bytes) :
    (keptArgs conf args).length ≤ tokRoom args := by
  calc
    (keptArgs conf args).length ≤ (tokens 38 args).length := List.length_filter_le _ _
    _ ≤ (args.splitOn 38).length := List.length_filter_le _ _
    _ = tokRoom args := length_splitOn 38 args

theorem isToken_of_mem_keptArgs {conf : LocConf} {args t : Bytes} (h : t ∈ keptArgs conf args) :
    IsToken 38 t :=
  isToken_of_mem 38 (List.mem_filter.1 h).1

/-- The text of kept arguments keeps them. -/
theorem keptArgs_text {conf : LocConf} {args : Bytes} :
    (keptArgs conf (text 38 ByteLe (keptArgs conf args))).Perm (keptArgs conf args) := by
  have hread : (tokens 38 (text 38 ByteLe (keptArgs conf args))).Perm (keptArgs conf args) :=
    Multiset.coe_eq_coe.1 (tokens_text 38 ByteLe fun t ht => isToken_of_mem_keptArgs ht)
  have hall : (keptArgs conf args).filter (fun t => !denied conf (argName t)) =
      keptArgs conf args := List.filter_eq_self.2 fun t ht => (List.mem_filter.1 ht).2
  have hkept := hread.filter fun t => !denied conf (argName t)
  rw [hall] at hkept
  exact hkept

/-! ## The value -/

/-- What the value says of the arguments. -/
def body (conf : LocConf) (args : Bytes) : Bytes :=
  if keptArgs conf args = [] then []
  else if Over conf args then 63 :: args
  else 63 :: text 38 ByteLe (keptArgs conf args)

/-- The length of a joined text. -/
theorem length_intercalate (sep : UInt8) {ts : List Bytes} (h : ts ≠ []) :
    ([sep].intercalate ts).length = (ts.map List.length).sum + (ts.length - 1) := by
  induction ts with
  | nil => exact absurd rfl h
  | cons t ts ih =>
    cases ts with
    | nil => simp
    | cons u ts =>
      rw [List.intercalate_cons_of_ne_nil (List.cons_ne_nil _ _), List.length_append,
        List.length_append, ih (List.cons_ne_nil _ _), List.map_cons, List.sum_cons]
      simp
      omega

/-- The sum of the lengths is that of the tokens in the text, beside the separators. -/
theorem length_text {ts : List Bytes} (h : ts ≠ []) :
    (text 38 ByteLe ts).length = (ts.map List.length).sum + (ts.length - 1) := by
  have hperm : ((ts : Multiset Bytes).sort ByteLe).Perm ts :=
    Multiset.coe_eq_coe.1 (Multiset.sort_eq _ ByteLe)
  have hne : (ts : Multiset Bytes).sort ByteLe ≠ [] := fun hnil =>
    h (List.perm_nil.1 (hnil ▸ hperm).symm)
  rw [text, length_intercalate 38 hne, (hperm.map List.length).sum_nat, hperm.length_eq]

theorem varSet_eq {pool : Pool} {src : Bytes} {v : VarValue} (h : varSet pool src = some v) :
    v = ⟨src.length, src⟩ := by
  rw [varSet] at h
  split at h
  · rename_i hlen
    rw [List.length_eq_zero_iff] at hlen
    subst hlen
    exact (Option.some.inj h).symm
  · split at h
    · exact (Option.some.inj h).symm
    · cases h

theorem keptArgs_nil (conf : LocConf) : keptArgs conf [] = [] := rfl

/-- **The value, in a buffer of its length.** -/
theorem variable_eq {pool : Pool} {loc : Location} {r : Request} {v : VarValue}
    (h : normalizedArgsVariable pool loc.conf r = some v) :
    v = ⟨(body loc.conf r.args ++ varySuffix loc.conf r).length,
      body loc.conf r.args ++ varySuffix loc.conf r⟩ := by
  rw [normalizedArgsVariable] at h
  split at h
  · rename_i hlen
    rw [body, List.length_eq_zero_iff.1 hlen, if_pos (keptArgs_nil _)]
    exact varSet_eq h
  · rw [argPass_eq] at h
    split at h
    · cases h
    · dsimp only at h
      split at h
      · rename_i hnone
        rw [body, if_pos (List.length_eq_zero_iff.1 hnone)]
        exact varSet_eq h
      · rename_i hsome
        have hne : keptArgs loc.conf r.args ≠ [] := fun hnil => hsome (by rw [hnil]; rfl)
        rw [body, if_neg hne]
        split at h
        · rename_i hover
          rw [if_pos (show Over loc.conf r.args from hover)]
          split at h
          · rw [← Option.some.inj h, List.length_append, List.length_cons, Nat.add_comm 1]
          · cases h
        · rename_i hunder
          rw [if_neg (show ¬ Over loc.conf r.args from hunder)]
          split at h
          · have hsort : [38].intercalate (sortInPlace TokLe (keptArgs loc.conf r.args)) =
                text 38 ByteLe (keptArgs loc.conf r.args) := by
              rw [sortInPlace_eq_sort TokLe tokLe_iff, text]
            rw [← Option.some.inj h, hsort, List.length_append, List.length_cons, length_text hne]
            congr 1
            omega
          · cases h

/-! ## Two queries -/

theorem Over.ne_nil {conf : LocConf} {args : Bytes} (h : Over conf args) :
    keptArgs conf args ≠ [] := by
  intro hnil
  rw [Over, hnil, overCap] at h
  split at h
  · cases h
  · rw [Bool.and_eq_true] at h
    exact absurd (of_decide_eq_true h.2) (Nat.not_lt_zero _)

theorem over_congr {conf : LocConf} {args args' : Bytes}
    (h : (keptArgs conf args).length = (keptArgs conf args').length) :
    Over conf args ↔ Over conf args' := by
  rw [Over, Over, h]

/-- A query that is too long to sort is the text of no other. -/
theorem body_ne_of_over {conf : LocConf} {args args' : Bytes} (h : Over conf args)
    (h' : ¬ Over conf args') : body conf args ≠ body conf args' := by
  rw [body, body, if_neg h.ne_nil, if_pos h]
  split
  · exact List.cons_ne_nil _ _
  · intro heq
    have hargs : args = text 38 ByteLe (keptArgs conf args') := (List.cons.inj heq).2
    have hperm : (keptArgs conf args).Perm (keptArgs conf args') := by
      rw [hargs]
      exact keptArgs_text
    exact h' ((over_congr hperm.length_eq).1 h)

/-- **One text for one bag of kept arguments.** -/
theorem body_eq_iff (conf : LocConf) (args args' : Bytes) :
    body conf args = body conf args' ↔
      (¬ Over conf args ∧ ¬ Over conf args' ∧ (keptArgs conf args).Perm (keptArgs conf args')) ∨
        (Over conf args ∧ Over conf args' ∧ args = args') := by
  by_cases h : Over conf args
  · by_cases h' : Over conf args'
    · rw [body, body, if_neg h.ne_nil, if_neg h'.ne_nil, if_pos h, if_pos h', List.cons_inj_right]
      exact ⟨fun heq => Or.inr ⟨h, h', heq⟩,
        fun heq => heq.elim (fun hunder => absurd h hunder.1) fun hover => hover.2.2⟩
    · exact iff_of_false (body_ne_of_over h h')
        (not_or.2 ⟨fun hunder => hunder.1 h, fun hover => h' hover.2.1⟩)
  · by_cases h' : Over conf args'
    · exact iff_of_false (body_ne_of_over h' h).symm
        (not_or.2 ⟨fun hunder => hunder.2.1 h', fun hover => h hover.1⟩)
    · have hbag : body conf args = body conf args' ↔
          (keptArgs conf args).Perm (keptArgs conf args') := by
        rw [body, body, if_neg h, if_neg h']
        by_cases hnil : keptArgs conf args = []
        · rw [if_pos hnil, hnil, List.nil_perm]
          split
          · rename_i hnil'
            exact iff_of_true rfl hnil'
          · rename_i hne'
            exact iff_of_false (List.cons_ne_nil _ _).symm hne'
        · rw [if_neg hnil]
          split
          · rename_i hnil'
            rw [hnil', List.perm_nil]
            exact iff_of_false (List.cons_ne_nil _ _) hnil
          · rw [List.cons_inj_right, ← Multiset.coe_eq_coe]
            exact ⟨text_inj 38 ByteLe (fun t ht => isToken_of_mem_keptArgs ht)
              fun t ht => isToken_of_mem_keptArgs ht, fun heq => by rw [heq]⟩
      rw [hbag]
      exact ⟨fun hperm => Or.inl ⟨h, h', hperm⟩,
        fun heq => heq.elim (fun hunder => hunder.2.2) fun hover => absurd hover.1 h⟩

/-- The delimiter of the suffix is in no token of a query without it. -/
theorem us_not_mem_body {conf : LocConf} {args : Bytes} (h : us ∉ args) : us ∉ body conf args := by
  have hmark : us ≠ 63 := by decide
  rw [body]
  split
  · exact List.not_mem_nil
  · split
    · exact fun hmem => (List.mem_cons.1 hmem).elim hmark h
    · intro hmem
      rcases (List.mem_cons.1 hmem).imp id mem_intercalate with heq | heq | ⟨t, ht, hin⟩
      · exact hmark heq
      · exact absurd heq (by decide)
      · have hkept : t ∈ keptArgs conf args := (Multiset.mem_sort ByteLe).1 ht
        exact h (mem_of_mem_splitOn 38 (List.mem_filter.1 (List.mem_filter.1 hkept).1).1 hin)

/-! ## The canonical form -/

theorem varySuffix_ended (conf : LocConf) (r : Request) : Ended us (varySuffix conf r) := by
  rw [varySuffix]
  split
  · exact Or.inl rfl
  · rename_i vary _
    split
    · exact Or.inl rfl
    · rw [axisField, axisField]
      cases vary &&& varyEncoding != 0
      · cases vary &&& varyDevice != 0
        · exact Or.inl rfl
        · exact Or.inr ⟨_, rfl⟩
      · exact Or.inr ⟨_, rfl⟩

/-- `NGX_HTTP_CACHE_TURBO_VARY_SUFFIX_MAX`. -/
def varySuffixMax : ℕ := 32

theorem aeClass_length_le (r : Request) : (aeClass r).length ≤ 8 := by
  have hdispatch : ∀ f : AeFound, (aeClassDispatch f).length ≤ 8 := by
    intro f
    rw [aeClassDispatch]
    split
    · decide
    · split
      · decide
      · split <;> decide
  rw [aeClass]
  split <;> exact hdispatch _

theorem deviceClass_length_le (r : Request) : (deviceClass r).length ≤ 7 := by
  rw [deviceClass]
  split
  · decide
  · split <;> decide

theorem axisField_length_le (bit : Bool) (tag cls : Bytes) :
    (axisField bit tag cls).length ≤ 1 + tag.length + cls.length := by
  rw [axisField]
  split
  · rw [List.length_cons, List.length_append]
    omega
  · exact Nat.zero_le _

/-- The suffix fits the buffer on the stack. -/
theorem varySuffix_length_le (conf : LocConf) (r : Request) :
    (varySuffix conf r).length ≤ varySuffixMax := by
  rw [varySuffix]
  split
  · exact Nat.zero_le _
  · rename_i vary _
    split
    · exact Nat.zero_le _
    · have hae := axisField_length_le (vary &&& varyEncoding != 0) aeTag (aeClass r)
      have hdev := axisField_length_le (vary &&& varyDevice != 0) devTag (deviceClass r)
      have haeClass := aeClass_length_le r
      have hdevClass := deviceClass_length_le r
      have haeTag : aeTag.length = 3 := rfl
      have hdevTag : devTag.length = 4 := rfl
      rw [List.length_append, varySuffixMax]
      omega

/-- Without a failed allocation there is a value. -/
theorem variable_isSome (conf : LocConf) (r : Request) :
    (normalizedArgsVariable ⟨true, true⟩ conf r).isSome = true := by
  have hset : ∀ src, (varSet ⟨true, true⟩ src).isSome = true := by
    intro src
    rw [varSet]
    split <;> rfl
  rw [normalizedArgsVariable]
  split
  · exact hset _
  · dsimp only
    rw [if_neg (by decide)]
    split
    · exact hset _
    · split <;> rfl

/-- Tokens in another order, with denied ones among them, keep the same arguments. -/
theorem keptArgs_perm {conf : LocConf} {args args' : Bytes} {junk : List Bytes}
    (h : (tokens 38 args').Perm (tokens 38 args ++ junk))
    (hjunk : ∀ t ∈ junk, denied conf (argName t) = true) :
    (keptArgs conf args').Perm (keptArgs conf args) := by
  have hnone : junk.filter (fun t => !denied conf (argName t)) = [] := by
    rw [List.filter_eq_nil_iff]
    intro t ht
    rw [hjunk t ht]
    decide
  have hfilter := h.filter fun t => !denied conf (argName t)
  rw [List.filter_append, hnone, List.append_nil] at hfilter
  exact hfilter

/-- **`$cache_turbo_normalized_args` is a canonical form.**  The value is the kept arguments in byte
order and the suffix, or the query as it is where there are too many; its buffer is as long as what
is written; two queries share it only for the same kept arguments, and then do, in whatever order and
with whatever denied ones between; and the bitmap is as good as the walk over all patterns. -/
theorem normalized_args_canonical (loc : Location) :
    (∀ pool r v, normalizedArgsVariable pool loc.conf r = some v →
      (keptArgs loc.conf r.args = [] → v.data = varySuffix loc.conf r) ∧
      (keptArgs loc.conf r.args ≠ [] → ¬ Over loc.conf r.args →
        v.data = 63 :: [38].intercalate ((keptArgs loc.conf r.args : Multiset Bytes).sort ByteLe)
          ++ varySuffix loc.conf r) ∧
      (Over loc.conf r.args → v.data = 63 :: r.args ++ varySuffix loc.conf r) ∧
      v.room = v.data.length) ∧
    (∀ r, (normalizedArgsVariable ⟨true, true⟩ loc.conf r).isSome = true ∧
      (argPass loc.conf r.args).toks.length ≤ tokRoom r.args ∧
      (varySuffix loc.conf r).length ≤ varySuffixMax) ∧
    (∀ pool pool' r r' v v', us ∉ r.args → us ∉ r'.args →
      normalizedArgsVariable pool loc.conf r = some v →
      normalizedArgsVariable pool' loc.conf r' = some v' →
      (v.data = v'.data ↔ varySuffix loc.conf r = varySuffix loc.conf r' ∧
        ((¬ Over loc.conf r.args ∧ ¬ Over loc.conf r'.args ∧
            (keptArgs loc.conf r.args).Perm (keptArgs loc.conf r'.args)) ∨
          (Over loc.conf r.args ∧ Over loc.conf r'.args ∧ r.args = r'.args)))) ∧
    (∀ pool pool' r args' junk v v', ¬ Over loc.conf r.args →
      (tokens 38 args').Perm (tokens 38 r.args ++ junk) →
      (∀ t ∈ junk, denied loc.conf (argName t) = true) →
      normalizedArgsVariable pool loc.conf r = some v →
      normalizedArgsVariable pool' loc.conf { r with args := args' } = some v' →
        v'.data = v.data) ∧
    ∀ name, nameDenied loc.conf name = denied loc.conf name := by
  refine ⟨fun pool r v h => ?_, fun r => ⟨variable_isSome loc.conf r, ?_, varySuffix_length_le _ r⟩,
    fun pool pool' r r' v v' hus hus' h h' => ?_,
    fun pool pool' r args' junk v v' hunder htokens hjunk h h' => ?_, nameDenied_eq loc⟩
  · rw [variable_eq h]
    refine ⟨fun hnone => ?_, fun hsome hunder => ?_, fun hover => ?_, rfl⟩
    · rw [body, if_pos hnone, List.nil_append]
    · rw [body, if_neg hsome, if_neg hunder, text]
    · rw [body, if_neg hover.ne_nil, if_pos hover]
  · rw [argPass_eq]
    exact keptArgs_length_le _ _
  · rw [variable_eq h, variable_eq h', ← body_eq_iff]
    constructor
    · intro heq
      exact (append_sep_inj (us_not_mem_body hus) (us_not_mem_body hus') (varySuffix_ended _ r)
        (varySuffix_ended _ r') heq).symm
    · rintro ⟨hsuffix, hbody⟩
      rw [hsuffix, hbody]
  · have hperm := keptArgs_perm htokens hjunk
    have hbody : body loc.conf args' = body loc.conf r.args :=
      (body_eq_iff _ _ _).2 (Or.inl ⟨fun hover => hunder ((over_congr hperm.length_eq).1 hover),
        hunder, hperm⟩)
    rw [variable_eq h, variable_eq h', hbody]
    rfl

/-- A configuration that sets nothing. -/
def unsetConf : LocConf := ⟨none, none, none, [], false⟩

def plainLocation : Location := ⟨mergeNormalize unsetConf unsetConf, _, _, rfl⟩

/-- A request with a query. -/
def queryRequest (args : Bytes) : Request := { bareRequest [] with args := args }

/-- `?a=1&b=2`. -/
def sortedValue : VarValue := ⟨8, lit ['?', 'a', '=', '1', '&', 'b', '=', '2']⟩

/-- `b=2&a=1`. -/
def unsorted : Bytes := lit ['b', '=', '2', '&', 'a', '=', '1']

/-- `a=1&&ref=x&b=2`. -/
def spelled : Bytes := lit ['a', '=', '1', '&', '&', 'r', 'e', 'f', '=', 'x', '&', 'b', '=', '2']

theorem normalized_args_canonical_spelled :
    sortedValue.room = sortedValue.data.length ∧
      (normalizedArgsVariable ⟨true, true⟩ plainLocation.conf (queryRequest spelled)).map
        VarValue.data = some sortedValue.data ∧
      (keptArgs plainLocation.conf unsorted).Perm (keptArgs plainLocation.conf spelled) := by
  have hunsorted : normalizedArgsVariable ⟨true, true⟩ plainLocation.conf (queryRequest unsorted) =
      some sortedValue := by decide +kernel
  have hunder : ¬ Over plainLocation.conf unsorted := by decide +kernel
  obtain ⟨hvalue, htotal, hsame, hjunk, -⟩ := normalized_args_canonical plainLocation
  obtain ⟨v, hspelled⟩ := Option.isSome_iff_exists.1 (htotal (queryRequest spelled)).1
  have hv : v.data = sortedValue.data :=
    hjunk _ _ (queryRequest unsorted) spelled [lit ['r', 'e', 'f', '=', 'x']] _ _ hunder
      (by decide +kernel) (by decide +kernel) hunsorted hspelled
  refine ⟨(hvalue _ _ _ hunsorted).2.2.2, ?_, ?_⟩
  · rw [hspelled, Option.map_some, hv]
  · have heq := (hsame _ _ _ _ _ _ (by decide) (by decide) hunsorted hspelled).1 hv.symm
    exact heq.2.elim (fun hbag => hbag.2.2) fun hover => absurd hover.1 hunder

end NormalizedArgs
end Http
end CacheTurbo
