/-
# The argument rules

`ngx_http_cache_turbo_argparse_build` and `ngx_http_cache_turbo_arg_rules_match`
(`ngx_http_cache_turbo_match.c`) on the bytes of the query as they stand in memory: a pair is
recorded as places in the query, the first 64 of them in the array on the stack and the rest in one
array of the request pool.  A read behind the query or a write behind an array gives `none`.

What the rules are about is in `Reads`: the pairs of the query, decoded.  `arg_rules_match_iff`
compares the two, and says that the spans are those of `argparseBuild` (`argparseLoopAt_spec`).
-/

import CacheTurbo.Match.AutoSkip

namespace CacheTurbo
namespace Match

open Bytes Incremental

/-! ## The query in memory -/

/-- A read of the query at `p`, before `e`. -/
def byteAt (q : Bytes) (e p : ℕ) : Option UInt8 := if p < e then q[p]? else none

/-- The byte at `p` decoded, whether it was, and the place behind it. -/
def qsNextAt (q : Bytes) (e p : ℕ) : Option (UInt8 × Bool × ℕ) := do
  let c ← byteAt q e p
  if c = 37 ∧ e - (p + 1) ≥ 2 then
    match hexval (← byteAt q e (p + 1)) with
    | none => pure (c, false, p + 1)
    | some hi =>
        match hexval (← byteAt q e (p + 2)) with
        | none => pure (c, false, p + 1)
        | some lo => pure ((hi <<< 4) ||| lo, true, p + 3)
  else pure (c, false, p + 1)

/-- The loop of `ngx_http_cache_turbo_qs_eq`. -/
def qsEqAt (q : Bytes) (e : ℕ) (needle : Bytes) (name : Bool) : ℕ → ℕ → ℕ → Option Bool
  | fuel, p, i =>
      if p < e then
        match fuel with
        | 0 => none
        | fuel + 1 => do
            let next ← qsNextAt q e p
            let c := if name then qsMangle next.1 next.2.1 else next.1
            if i ≥ needle.length ∨ needle[i]? ≠ some c then pure false
            else qsEqAt q e needle name fuel next.2.2 (i + 1)
      else some (decide (i = needle.length))

/-- `ngx_http_cache_turbo_argspan_t`, with places in the query. -/
structure SpanAt where
  nameStart : ℕ
  nameEnd : ℕ
  value : Option (ℕ × ℕ)
  deriving DecidableEq, Repr

/-- `ngx_http_cache_turbo_argparse_t`: `pool` says that `spans` is the array of the pool. -/
structure ArgParseAt where
  spans : List SpanAt
  capacity : ℕ
  pool : Bool
  nameFirst : List UInt8
  deriving DecidableEq, Repr

/-- What `ngx_http_cache_turbo_argparse_build` returns. -/
inductive BuildRc
  | ok (ap : ArgParseAt)
  | error
  deriving DecidableEq, Repr

/-- `NGX_HTTP_CACHE_TURBO_ARGS_MAX`. -/
def argsMax : ℕ := 64

/-- The most spans that a `size_t` can count the bytes of. -/
def spansMax : ℕ := 0x7fffffffffffffff / 32

/-- The end of the pair at `p`. -/
def pairEndAt (q : Bytes) (e : ℕ) : ℕ → ℕ → Option ℕ
  | fuel, p =>
      if p < e then
        match fuel with
        | 0 => none
        | fuel + 1 => do
            if isAmp (← byteAt q e p) then pure p else pairEndAt q e fuel (p + 1)
      else some p

/-- `ngx_strlchr`. -/
def strlchrAt (q : Bytes) (c : UInt8) (e : ℕ) : ℕ → ℕ → Option (Option ℕ)
  | fuel, p =>
      if p < e then
        match fuel with
        | 0 => none
        | fuel + 1 => do
            if (← byteAt q e p) = c then pure (some p) else strlchrAt q c e fuel (p + 1)
      else some none

/-- `ngx_http_cache_turbo_argparse_tail_count`, with the count so far. -/
def tailCountAt (q : Bytes) (e : ℕ) : ℕ → ℕ → ℕ → Option ℕ
  | fuel, p, count =>
      if p < e then
        match fuel with
        | 0 => none
        | fuel + 1 => do
            let pend ← pairEndAt q e (e - p) p
            tailCountAt q e fuel (if pend < e then pend + 1 else pend)
              (if pend ≠ p then count + 1 else count)
      else some count

/-- Room for the pair at `pair`: the array on the stack is left when it is full, and the one of the
pool is never. -/
def growAt (q : Bytes) (palloc : Bool) (ap : ArgParseAt) (pair : ℕ) : Option BuildRc :=
  if ap.spans.length ≥ ap.capacity then
    if ap.pool then some .error
    else do
      let remaining ← tailCountAt q q.length (q.length - pair) pair 0
      if remaining > spansMax - ap.spans.length then pure .error
      else if palloc = false then pure .error
      else pure (.ok { ap with capacity := ap.spans.length + remaining, pool := true })
  else some (.ok ap)

/-- A write behind the last span. -/
def pushSpan (ap : ArgParseAt) (sp : SpanAt) : Option ArgParseAt :=
  if ap.spans.length < ap.capacity then some { ap with spans := ap.spans ++ [sp] } else none

/-- The span of the pair from `pair` to `pend`. -/
def spanAt (pair pend : ℕ) : Option ℕ → SpanAt
  | some eq => ⟨pair, eq, some (eq + 1, pend)⟩
  | none => ⟨pair, pend, none⟩

/-- The first byte of a name, decoded and mangled, is marked. -/
def markFirst (q : Bytes) (ap : ArgParseAt) (sp : SpanAt) : Option ArgParseAt :=
  if sp.nameStart < sp.nameEnd then do
    let next ← qsNextAt q sp.nameEnd sp.nameStart
    pure { ap with nameFirst := qsMangle next.1 next.2.1 :: ap.nameFirst }
  else some ap

/-- The loop of `ngx_http_cache_turbo_argparse_build`. -/
def argparseLoopAt (q : Bytes) (palloc : Bool) : ℕ → ℕ → ArgParseAt → Option BuildRc
  | fuel, p, ap =>
      if p < q.length then
        match fuel with
        | 0 => none
        | fuel + 1 => do
            let pend ← pairEndAt q q.length (q.length - p) p
            let next := if pend < q.length then pend + 1 else pend
            if pend = p then argparseLoopAt q palloc fuel next ap
            else
              let sp := spanAt p pend (← strlchrAt q 61 pend (pend - p) p)
              match ← growAt q palloc ap p with
              | .error => pure .error
              | .ok ap => argparseLoopAt q palloc fuel next (← markFirst q (← pushSpan ap sp) sp)
      else some (.ok ap)

/-- `ngx_http_cache_turbo_argparse_build`; `palloc` says whether the pool has room. -/
def argparseBuildAt (palloc : Bool) (q : Bytes) : Option BuildRc :=
  argparseLoopAt q palloc q.length 0 ⟨[], argsMax, false, []⟩

/-- One rule against one span. -/
def argRuleAt (q : Bytes) (ap : ArgParseAt) (sp : SpanAt) (ar : ArgRule) : Option Bool :=
  if nameFirstRules ⟨[], ap.nameFirst⟩ ar.name then some false
  else do
    if ← qsEqAt q sp.nameEnd ar.name true (sp.nameEnd - sp.nameStart) sp.nameStart 0 then
      match ar.value with
      | none => pure true
      | some v =>
          match sp.value with
          | none => pure false
          | some (b, e) => qsEqAt q e v false (e - b) b 0
    else pure false

/-- `ngx_http_cache_turbo_arg_rules_match`, on places of the query. -/
def argRulesMatchAt (q : Bytes) (ap : ArgParseAt) (rules : List ArgRule) : Option Bool :=
  if rules = [] then some false
  else ap.spans.anyM fun sp => rules.anyM (argRuleAt q ap sp)

/-! ## What the application reads -/

/-- A text without its escapes: its bytes, each with whether it was escaped. -/
def percentDecode : Bytes → List (UInt8 × Bool)
  | c :: h :: l :: rest =>
      if c = 37 then
        match hexval h, hexval l with
        | some hi, some lo => (16 * hi + lo, true) :: percentDecode rest
        | _, _ => (c, false) :: percentDecode (h :: l :: rest)
      else (c, false) :: percentDecode (h :: l :: rest)
  | [c, d] => [(c, false), (d, false)]
  | [c] => [(c, false)]
  | [] => []

/-- A name as the application has it: `.`, a blank and a `+` that was not escaped are `_`. -/
def nameText (s : Bytes) : Bytes :=
  (percentDecode s).map fun d => if d.1 = 46 ∨ d.1 = 32 ∨ d = (43, false) then 95 else d.1

/-- A value as the application has it. -/
def valueText (s : Bytes) : Bytes := (percentDecode s).map Prod.fst

/-- The pairs of a query: what stands between `&` and `;`, where that is not empty. -/
def segments (q : Bytes) : List Bytes := (q.splitOnP isAmp).filter (· ≠ [])

/-- The name of a pair. -/
def segName (seg : Bytes) : Bytes := seg.takeWhile (· ≠ 61)

/-- The value of a pair, where it has a `=`. -/
def segValue (seg : Bytes) : Option Bytes :=
  if 61 ∈ seg then some (seg.dropWhile (· ≠ 61)).tail else none

/-- **What a rule asks of a pair**, by its name and value. -/
structure Reads (ar : ArgRule) (pair : ArgSpan) : Prop where
  name : nameText pair.name = ar.name
  value : ∀ v, ar.value = some v → pair.value.map valueText = some v

/-! ### Escapes -/

theorem hexval_lt {c v : UInt8} (h : hexval c = some v) : v < 16 := by
  have hall : ∀ n : Fin 256, (hexval (UInt8.ofNat n.val)).all (· < 16) = true := by decide +kernel
  have hc := hall ⟨c.toNat, c.toNat_lt⟩
  rw [UInt8.ofNat_toNat, h] at hc
  exact of_decide_eq_true hc

theorem nibbles_or {hi lo : UInt8} (hhi : hi < 16) (hlo : lo < 16) :
    (hi <<< 4) ||| lo = 16 * hi + lo := by
  have hall : ∀ a b : Fin 16, (UInt8.ofNat a.val <<< 4) ||| UInt8.ofNat b.val =
      16 * UInt8.ofNat a.val + UInt8.ofNat b.val := by decide +kernel
  have hpair := hall ⟨hi.toNat, hhi⟩ ⟨lo.toNat, hlo⟩
  simpa only [UInt8.ofNat_toNat] using hpair

/-- **The code takes one byte of the decoded text at a time.** -/
theorem percentDecode_cons (c : UInt8) (rest : Bytes) :
    percentDecode (c :: rest) =
      ((qsNext c rest).1, (qsNext c rest).2.1) :: percentDecode (qsNext c rest).2.2 := by
  rcases rest with _ | ⟨h, _ | ⟨l, tail⟩⟩
  · rfl
  · rfl
  · rw [percentDecode, qsNext]
    by_cases hc : c = 37
    · rw [if_pos hc, if_pos hc]
      cases hhi : hexval h with
      | none => rfl
      | some hi =>
        cases hlo : hexval l with
        | none => rfl
        | some lo =>
          dsimp only
          rw [nibbles_or (hexval_lt hhi) (hexval_lt hlo)]
    · rw [if_neg hc, if_neg hc]

/-- A name or a value as the application has it. -/
def qsText (name : Bool) (s : Bytes) : Bytes := if name then nameText s else valueText s

/-- What a comparison makes of a decoded byte. -/
def qsByte (name : Bool) (d : UInt8 × Bool) : UInt8 := if name then qsMangle d.1 d.2 else d.1

theorem qsMangle_eq (d : UInt8 × Bool) :
    qsMangle d.1 d.2 = if d.1 = 46 ∨ d.1 = 32 ∨ d = (43, false) then 95 else d.1 := by
  obtain ⟨c, escaped⟩ := d
  simp only [qsMangle, Prod.mk.injEq]
  split_ifs <;> first | rfl | tauto

theorem qsText_eq (name : Bool) (s : Bytes) : qsText name s = (percentDecode s).map (qsByte name) := by
  cases name with
  | false => rfl
  | true => exact List.map_congr_left fun d _ => (qsMangle_eq d).symm

theorem qsText_cons (name : Bool) (c : UInt8) (rest : Bytes) :
    qsText name (c :: rest) =
      (if name then qsMangle (qsNext c rest).1 (qsNext c rest).2.1 else (qsNext c rest).1) ::
        qsText name (qsNext c rest).2.2 := by
  rw [qsText_eq, qsText_eq, percentDecode_cons]
  rfl

@[simp] theorem qsText_nil (name : Bool) : qsText name [] = [] := by
  cases name <;> rfl

/-! ### Places and pieces -/

/-- The bytes from `p` to `e`. -/
def slice (q : Bytes) (p e : ℕ) : Bytes := (q.take e).drop p

section Slice

variable {q : Bytes} {p e : ℕ}

theorem slice_length (he : e ≤ q.length) : (slice q p e).length = e - p := by
  rw [slice, List.length_drop, List.length_take, Nat.min_eq_left he]

theorem slice_eq_nil (he : e ≤ q.length) : slice q p e = [] ↔ e ≤ p := by
  rw [← List.length_eq_zero_iff, slice_length he]
  omega

/-- A walk that has not reached the end has a byte before it. -/
theorem slice_eq_cons (he : e ≤ q.length) (hlt : p < e) : ∃ c rest, slice q p e = c :: rest :=
  List.exists_cons_of_ne_nil fun hnil => Nat.not_le.2 hlt ((slice_eq_nil he).1 hnil)

theorem slice_drop (n : ℕ) : (slice q p e).drop n = slice q (p + n) e := by
  rw [slice, slice, List.drop_drop]

theorem slice_take (n : ℕ) (h : p + n ≤ e) : (slice q p e).take n = slice q p (p + n) := by
  rw [slice, slice, List.take_drop, List.take_take, Nat.min_eq_left h]

theorem byteAt_of_slice {c : UInt8} {rest : Bytes} (he : e ≤ q.length)
    (h : slice q p e = c :: rest) : byteAt q e p = some c := by
  have hlt : p < e := by
    by_contra hge
    rw [(slice_eq_nil he).2 (Nat.le_of_not_lt hge)] at h
    cases h
  have hget : (slice q p e)[0]? = some c := by rw [h]; rfl
  rw [byteAt, if_pos hlt]
  rw [slice, List.getElem?_drop, List.getElem?_take_of_lt (by omega)] at hget
  exact hget

theorem slice_tail {c : UInt8} {rest : Bytes} (h : slice q p e = c :: rest) :
    slice q (p + 1) e = rest := by
  rw [← slice_drop 1, h]
  rfl

/-- **A byte is decoded within its text.** -/
theorem qsNextAt_eq {c : UInt8} {rest : Bytes} (he : e ≤ q.length) (h : slice q p e = c :: rest) :
    ∃ p', qsNextAt q e p = some ((qsNext c rest).1, (qsNext c rest).2.1, p') ∧ p < p' ∧
      slice q p' e = (qsNext c rest).2.2 := by
  have hrest := slice_tail h
  have hlen : rest.length = e - (p + 1) := by rw [← hrest, slice_length he]
  have hplain : ∃ p', some (c, false, p + 1) = some (c, false, p') ∧ p < p' ∧ slice q p' e = rest :=
    ⟨p + 1, rfl, Nat.lt_succ_self p, hrest⟩
  unfold qsNextAt
  rw [byteAt_of_slice he h]
  simp only [Option.bind_eq_bind, Option.bind_some]
  rcases rest with _ | ⟨x, _ | ⟨y, tail⟩⟩
  · rw [if_neg (by simp at hlen; omega)]
    exact hplain
  · rw [if_neg (by simp at hlen; omega)]
    exact hplain
  · have hroom : e - (p + 1) ≥ 2 := by
      rw [← hlen]
      simp
    have hy : slice q (p + 2) e = y :: tail := slice_tail hrest
    by_cases hc : c = 37
    · rw [if_pos ⟨hc, hroom⟩, byteAt_of_slice he hrest]
      simp only [qsNext, if_pos hc, Option.bind_some]
      cases hhi : hexval x with
      | none => exact hplain
      | some hi =>
        rw [byteAt_of_slice he hy]
        simp only [Option.bind_some]
        cases hlo : hexval y with
        | none => exact hplain
        | some lo => exact ⟨p + 3, rfl, by omega, slice_tail hy⟩
    · rw [if_neg fun h => hc h.1]
      simp only [qsNext, if_neg hc]
      exact hplain

/-- **The comparison is one of the decoded text**, and reads no byte behind it. -/
theorem qsEqAt_eq (needle : Bytes) (name : Bool) {fuel i : ℕ} (he : e ≤ q.length)
    (hfuel : e - p ≤ fuel) (hi : i ≤ needle.length) :
    qsEqAt q e needle name fuel p i = some (decide (qsText name (slice q p e) = needle.drop i)) := by
  have hdone : ∀ {i}, i ≤ needle.length → (i = needle.length ↔ [] = needle.drop i) := by
    intro i hi
    rw [@eq_comm _ [], List.drop_eq_nil_iff]
    omega
  induction fuel generalizing p i with
  | zero =>
    rw [qsEqAt, if_neg (by omega), (slice_eq_nil he).2 (by omega), qsText_nil]
    simp only [hdone hi]
  | succ fuel ih =>
    unfold qsEqAt
    by_cases hlt : p < e
    · obtain ⟨c, rest, hslice⟩ := slice_eq_cons he hlt
      obtain ⟨p', hnext, hlater, hrest⟩ := qsNextAt_eq he hslice
      rw [if_pos hlt, hnext, hslice, qsText_cons]
      simp only [Option.bind_eq_bind, Option.bind_some]
      generalize (if name then qsMangle (qsNext c rest).1 (qsNext c rest).2.1
        else (qsNext c rest).1) = b
      by_cases hend : i ≥ needle.length
      · rw [if_pos (Or.inl hend), List.drop_eq_nil_iff.2 hend]
        rfl
      · have hget : needle[i]? = some needle[i] := List.getElem?_eq_getElem (by omega)
        rw [List.drop_eq_getElem_cons (by omega), hget]
        by_cases hb : needle[i] = b
        · rw [if_neg (by simp [hb]; omega), ih (by omega) (by omega), hrest]
          simp [hb]
        · have hne : ¬ b :: qsText name (qsNext c rest).2.2 = needle[i] :: needle.drop (i + 1) :=
            fun h => hb (List.cons.inj h).1.symm
          rw [if_pos (Or.inr fun h => hb (Option.some.inj h)), decide_eq_false hne]
          rfl
    · rw [if_neg hlt, (slice_eq_nil he).2 (by omega), qsText_nil]
      simp only [hdone hi]

/-- The pair at `p` ends at its separator, or with the query. -/
theorem pairEndAt_eq {fuel : ℕ} (he : e ≤ q.length) (hp : p ≤ e) (hfuel : e - p ≤ fuel) :
    pairEndAt q e fuel p = some (p + ((slice q p e).takeWhile (!isAmp ·)).length) := by
  induction fuel generalizing p with
  | zero =>
    rw [pairEndAt, if_neg (by omega), (slice_eq_nil he).2 (by omega)]
    rfl
  | succ fuel ih =>
    unfold pairEndAt
    by_cases hlt : p < e
    · obtain ⟨c, rest, hslice⟩ := slice_eq_cons he hlt
      rw [if_pos hlt, byteAt_of_slice he hslice, hslice, List.takeWhile_cons]
      simp only [Option.bind_eq_bind, Option.bind_some]
      cases hc : isAmp c with
      | true => simp
      | false =>
        simp only [Bool.false_eq_true, if_false, Bool.not_false, if_true, List.length_cons]
        rw [ih (by omega) (by omega), slice_tail hslice, Nat.add_right_comm, Nat.add_assoc]
    · rw [if_neg hlt, (slice_eq_nil he).2 (by omega)]
      rfl

/-- A byte is found at its first place. -/
theorem strlchrAt_eq (c : UInt8) {fuel : ℕ} (he : e ≤ q.length) (hfuel : e - p ≤ fuel) :
    strlchrAt q c e fuel p =
      some (if c ∈ slice q p e then some (p + ((slice q p e).takeWhile (· ≠ c)).length) else none) := by
  induction fuel generalizing p with
  | zero =>
    rw [strlchrAt, if_neg (by omega), (slice_eq_nil he).2 (by omega)]
    rfl
  | succ fuel ih =>
    unfold strlchrAt
    by_cases hlt : p < e
    · obtain ⟨b, rest, hslice⟩ := slice_eq_cons he hlt
      rw [if_pos hlt, byteAt_of_slice he hslice, hslice, List.takeWhile_cons]
      simp only [Option.bind_eq_bind, Option.bind_some]
      by_cases hb : b = c
      · simp [hb]
      · rw [if_neg hb, ih (by omega), slice_tail hslice]
        simp only [List.mem_cons, Ne.symm hb, false_or, ne_eq, hb, not_false_eq_true, decide_true,
          if_true, List.length_cons, Nat.add_right_comm p 1, Nat.add_assoc]
    · rw [if_neg hlt, (slice_eq_nil he).2 (by omega)]
      rfl

end Slice

/-! ### Pairs -/

@[simp] theorem segments_nil : segments [] = [] := by
  rw [segments, List.splitOnP_nil]
  rfl

/-- The pairs of a query are the first one, where it is not empty, and those behind it. -/
theorem segments_step (s : Bytes) :
    segments s = (if s.takeWhile (!isAmp ·) = [] then [] else [s.takeWhile (!isAmp ·)]) ++
      segments ((s.dropWhile (!isAmp ·)).drop 1) := by
  have hpair : ∀ c ∈ s.takeWhile (!isAmp ·), isAmp c = false := fun c hc => by
    have hnot := List.mem_takeWhile_imp hc
    simpa using hnot
  have hcons : ∀ x : Bytes, ∀ l, (x :: l : List Bytes).filter (· ≠ []) =
      (if x = [] then [] else [x]) ++ l.filter (· ≠ []) := by
    intro x l
    by_cases hx : x = [] <;> simp [hx]
  have hsplit : s.takeWhile (!isAmp ·) ++ s.dropWhile (!isAmp ·) = s :=
    List.takeWhile_append_dropWhile
  cases hrest : s.dropWhile (!isAmp ·) with
  | nil =>
    rw [hrest, List.append_nil] at hsplit
    rw [hsplit] at hpair
    rw [List.drop_nil, segments_nil, segments, hsplit, List.splitOnP_eq_singleton hpair, hcons]
    simp
  | cons c rest =>
    have hc : isAmp c = true := by
      have hhead := List.head?_dropWhile_not (!isAmp ·) s
      rw [hrest] at hhead
      simpa using hhead
    rw [hrest] at hsplit
    have hfirst : s.splitOnP isAmp = s.takeWhile (!isAmp ·) :: rest.splitOnP isAmp := by
      conv_lhs => rw [← hsplit]
      exact List.splitOnP_append_cons_of_forall_mem hpair c hc rest
    rw [segments, hfirst, hcons, List.drop_one, List.tail_cons, segments]

/-- What is left of a query behind its first pair is shorter. -/
theorem afterPair_length_lt {s : Bytes} (h : s ≠ []) :
    ((s.dropWhile (!isAmp ·)).drop 1).length < s.length := by
  have hle := List.length_dropWhile_le (!isAmp ·) s
  have hpos := List.length_pos_of_ne_nil h
  rw [List.length_drop]
  omega

/-- A list is cut where a test fails first. -/
theorem cutAt_length {α : Type} (f : α → Bool) (s : List α) :
    s.take (s.takeWhile f).length = s.takeWhile f ∧ s.drop (s.takeWhile f).length = s.dropWhile f := by
  have hsplit : s.takeWhile f ++ s.dropWhile f = s := List.takeWhile_append_dropWhile
  generalize s.takeWhile f = a at hsplit ⊢
  generalize s.dropWhile f = b at hsplit ⊢
  rw [← hsplit]
  exact ⟨List.take_left, List.drop_left⟩

section Walk

variable {q : Bytes} {p : ℕ}

theorem slice_full (q : Bytes) : slice q 0 q.length = q := by
  rw [slice, List.take_length, List.drop_zero]

/-- The end of the first pair, and the place behind its separator. -/
theorem pairEnd_slice (hp : p < q.length) :
    let pend := p + ((slice q p q.length).takeWhile (!isAmp ·)).length
    let next := if pend < q.length then pend + 1 else pend
    pend ≤ q.length ∧ slice q p pend = (slice q p q.length).takeWhile (!isAmp ·) ∧
      slice q next q.length = ((slice q p q.length).dropWhile (!isAmp ·)).drop 1 ∧
      p < next ∧ next ≤ q.length := by
  intro pend next
  have hlen := slice_length (p := p) (Nat.le_refl q.length)
  have hle := (List.takeWhile_prefix (!isAmp ·) (l := slice q p q.length)).length_le
  have hpend : pend ≤ q.length := by omega
  have hdrop : slice q pend q.length = (slice q p q.length).dropWhile (!isAmp ·) := by
    rw [← slice_drop]
    exact (cutAt_length _ _).2
  refine ⟨hpend, ?_, ?_, ?_, ?_⟩
  · rw [← slice_take _ hpend]
    exact (cutAt_length _ _).1
  · rw [← hdrop, slice_drop]
    by_cases hlt : pend < q.length
    · rw [show next = pend + 1 from if_pos hlt]
    · rw [show next = pend from if_neg hlt, (slice_eq_nil (Nat.le_refl _)).2 (by omega),
        (slice_eq_nil (Nat.le_refl _)).2 (by omega)]
  · show p < if pend < q.length then pend + 1 else pend
    split <;> omega
  · show (if pend < q.length then pend + 1 else pend) ≤ q.length
    split <;> omega

/-- **The count of the pairs that are left.** -/
theorem tailCountAt_eq {fuel : ℕ} (count : ℕ) (hp : p ≤ q.length) (hfuel : q.length - p ≤ fuel) :
    tailCountAt q q.length fuel p count =
      some (count + (segments (slice q p q.length)).length) := by
  induction fuel generalizing p count with
  | zero =>
    rw [tailCountAt, if_neg (by omega), (slice_eq_nil (Nat.le_refl _)).2 (by omega), segments_nil]
    rfl
  | succ fuel ih =>
    unfold tailCountAt
    by_cases hlt : p < q.length
    · obtain ⟨-, hpair, hrest, hlater, hnext⟩ := pairEnd_slice hlt
      rw [if_pos hlt, pairEndAt_eq (Nat.le_refl _) hp (Nat.le_refl _)]
      simp only [Option.bind_eq_bind, Option.bind_some]
      rw [ih _ hnext (by omega), hrest, segments_step (slice q p q.length), List.length_append]
      generalize (slice q p q.length).takeWhile (!isAmp ·) = pair
      cases pair with
      | nil => simp
      | cons c pair =>
        simp only [List.length_cons, ne_eq, Nat.add_eq_left, Nat.succ_ne_zero,
          reduceCtorEq, not_false_eq_true, if_true, if_false, List.length_nil]
        congr 1
        omega
    · rw [if_neg hlt, (slice_eq_nil (Nat.le_refl _)).2 (by omega), segments_nil]
      rfl

/-- A span within the query. -/
structure SpanAt.Inside (q : Bytes) (sp : SpanAt) : Prop where
  name : sp.nameEnd ≤ q.length
  value : ∀ b e, sp.value = some (b, e) → e ≤ q.length

/-- What a span records. -/
def SpanAt.read (q : Bytes) (sp : SpanAt) : ArgSpan :=
  ⟨slice q sp.nameStart sp.nameEnd, sp.value.map fun v => slice q v.1 v.2⟩

/-- What the spans record. -/
def ArgParseAt.read (q : Bytes) (ap : ArgParseAt) : ArgParse :=
  ⟨ap.spans.map (SpanAt.read q), ap.nameFirst⟩

/-- The span of a pair. -/
def argSpan (seg : Bytes) : ArgSpan :=
  match cut 61 seg with
  | none => ⟨seg, none⟩
  | some (n, v) => ⟨n, some v⟩

theorem argSpan_eq (seg : Bytes) : argSpan seg = ⟨segName seg, segValue seg⟩ := by
  unfold argSpan segName segValue
  cases hcut : cut 61 seg with
  | none =>
    have hnot := cut_eq_none.1 hcut
    have hall : seg.takeWhile (· ≠ 61) = seg := List.takeWhile_eq_self_iff.2 fun c hc =>
      decide_eq_true fun h => hnot (h ▸ hc)
    rw [hall, if_neg hnot]
  | some nv =>
    obtain ⟨n, v⟩ := nv
    obtain ⟨rfl, hnot⟩ := cut_eq_some.1 hcut
    have hn : ∀ c ∈ n, decide (c ≠ 61) = true := fun c hc => decide_eq_true fun h => hnot (h ▸ hc)
    rw [List.takeWhile_append_of_pos hn, List.dropWhile_append_of_pos hn, if_pos (by simp)]
    simp

/-- The marks of a name. -/
def firstMark (sp : ArgSpan) (marks : List UInt8) : List UInt8 :=
  match sp.name with
  | [] => marks
  | c :: cs => qsFirstMangled c cs :: marks

/-- The span of the pair from `p` to `pend` records it. -/
theorem strlchrAt_span {pend : ℕ} (hpend : pend ≤ q.length) :
    ∃ eq, strlchrAt q 61 pend (pend - p) p = some eq ∧
      (spanAt p pend eq).read q = argSpan (slice q p pend) ∧ (spanAt p pend eq).Inside q := by
  refine ⟨_, strlchrAt_eq 61 hpend (Nat.le_refl _), ?_⟩
  by_cases hmem : 61 ∈ slice q p pend
  · obtain ⟨n, v, hslice, hnot⟩ := List.eq_append_cons_of_mem hmem
    have hn : (slice q p pend).takeWhile (· ≠ 61) = n := by
      have hplain : ∀ c ∈ n, decide (c ≠ 61) = true := fun c hc =>
        decide_eq_true fun h => hnot (h ▸ hc)
      rw [hslice, List.takeWhile_append_of_pos hplain]
      simp
    have hlen := slice_length (p := p) hpend
    rw [hslice, List.length_append, List.length_cons] at hlen
    rw [if_pos hmem, hn]
    refine ⟨?_, ?_, ?_⟩
    · have hname : slice q p (p + n.length) = n := by
        rw [← slice_take _ (by omega : p + n.length ≤ pend), hslice, List.take_left]
      have hvalue : slice q (p + n.length + 1) pend = v := by
        rw [Nat.add_assoc, ← slice_drop, hslice, ← List.drop_drop, List.drop_left]
        rfl
      rw [argSpan, hslice, cut_append hnot]
      simp only [SpanAt.read, spanAt, Option.map_some, hname, hvalue]
    · show p + n.length ≤ q.length
      omega
    · rintro b e ⟨⟩
      exact hpend
  · rw [if_neg hmem]
    refine ⟨?_, hpend, nofun⟩
    rw [argSpan, cut_eq_none.2 hmem]
    rfl

theorem markFirst_eq (ap : ArgParseAt) {sp : SpanAt} (hsp : sp.nameEnd ≤ q.length) :
    markFirst q ap sp = some { ap with nameFirst := firstMark (sp.read q) ap.nameFirst } := by
  unfold markFirst firstMark
  by_cases hlt : sp.nameStart < sp.nameEnd
  · obtain ⟨c, rest, hslice⟩ := slice_eq_cons hsp hlt
    obtain ⟨p', hnext, -, -⟩ := qsNextAt_eq hsp hslice
    rw [if_pos hlt, hnext]
    simp only [SpanAt.read, hslice]
    rfl
  · simp only [if_neg hlt, SpanAt.read, (slice_eq_nil hsp).2 (Nat.le_of_not_lt hlt)]

/-- **The array that the spans are in**, when `count` more come: the one on the stack, or one of the
pool that they fill. -/
inductive Sized (ap : ArgParseAt) (count : ℕ) : Prop
  | stack (hpool : ap.pool = false) (hcap : ap.capacity = argsMax)
      (hle : ap.spans.length ≤ argsMax)
  | pool (hpool : ap.pool = true) (hcap : ap.capacity = ap.spans.length + count)
      (hmany : argsMax < ap.spans.length + count)

/-- There is no memory for `count` more spans. -/
def NoRoom (palloc : Bool) (ap : ArgParseAt) (count : ℕ) : Prop :=
  ap.pool = false ∧ argsMax < ap.spans.length + count ∧
    (palloc = false ∨ spansMax < ap.spans.length + count)

theorem Sized.not_noRoom {palloc : Bool} {ap : ArgParseAt} (h : Sized ap 0) :
    ¬ NoRoom palloc ap 0 := by
  rintro ⟨hno, hmany, -⟩
  cases h with
  | stack hpool hcap hle => omega
  | pool hpool =>
    rw [hpool] at hno
    cases hno

/-- **Room is made for the pair at `p`** once, and for all that are left. -/
theorem growAt_spec {palloc : Bool} {ap : ArgParseAt} {count : ℕ} (hp : p ≤ q.length)
    (hcount : (segments (slice q p q.length)).length = count) (hpos : 0 < count)
    (h : Sized ap count) :
    NoRoom palloc ap count ∧ growAt q palloc ap p = some .error ∨
      ∃ ap', growAt q palloc ap p = some (.ok ap') ∧ ap'.spans = ap.spans ∧
        ap'.nameFirst = ap.nameFirst ∧ ap'.spans.length < ap'.capacity ∧ Sized ap' count ∧
        (NoRoom palloc ap' count ↔ NoRoom palloc ap count) := by
  unfold growAt
  cases h with
  | pool hpool hcap hmany =>
    rw [if_neg (by omega)]
    exact Or.inr ⟨ap, rfl, rfl, rfl, by omega, .pool hpool hcap hmany, Iff.rfl⟩
  | stack hpool hcap hle =>
    by_cases hfull : ap.spans.length ≥ ap.capacity
    · have hmax : argsMax = 64 := rfl
      rw [if_pos hfull, hpool, if_neg (by decide), tailCountAt_eq 0 hp (Nat.le_refl _), hcount,
        Nat.zero_add]
      simp only [Option.bind_eq_bind, Option.bind_some]
      by_cases hbig : count > spansMax - ap.spans.length
      · rw [if_pos hbig]
        exact Or.inl ⟨⟨hpool, by omega, Or.inr (by omega)⟩, rfl⟩
      · rw [if_neg hbig]
        cases palloc with
        | false => exact Or.inl ⟨⟨hpool, by omega, Or.inl rfl⟩, rfl⟩
        | true =>
          have hspans : spansMax = 288230376151711743 := by decide
          refine Or.inr ⟨_, rfl, rfl, rfl, Nat.lt_add_of_pos_right hpos,
            .pool rfl rfl (by dsimp only; omega), iff_of_false (fun hno => ?_) fun hno => ?_⟩
          · cases hno.1
          · rcases hno.2.2 with hno | hno
            · cases hno
            · omega
    · rw [if_neg hfull]
      exact Or.inr ⟨ap, rfl, rfl, rfl, Nat.lt_of_not_le hfull, .stack hpool hcap hle, Iff.rfl⟩

/-- **The walk records the pairs**, each where the other model has it, and fills the array that it
took from the pool. -/
theorem argparseLoopAt_spec {palloc : Bool} {fuel : ℕ} {ap : ArgParseAt} (hp : p ≤ q.length)
    (hfuel : q.length - p ≤ fuel)
    (h : Sized ap (segments (slice q p q.length)).length)
    (hinside : ∀ sp ∈ ap.spans, sp.Inside q) :
    NoRoom palloc ap (segments (slice q p q.length)).length ∧
        argparseLoopAt q palloc fuel p ap = some .error ∨
      ¬ NoRoom palloc ap (segments (slice q p q.length)).length ∧
      ∃ ap', argparseLoopAt q palloc fuel p ap = some (.ok ap') ∧
        ap'.read q = argparseLoop (ap.read q) fuel (slice q p q.length) ∧
        ap'.spans.length = ap.spans.length + (segments (slice q p q.length)).length ∧
        Sized ap' 0 ∧ ∀ sp ∈ ap'.spans, sp.Inside q := by
  induction fuel generalizing p ap with
  | zero =>
    have hnil := (slice_eq_nil (Nat.le_refl _)).2 (show q.length ≤ p by omega)
    rw [hnil, segments_nil] at h ⊢
    rw [argparseLoopAt, if_neg (by omega)]
    exact Or.inr ⟨h.not_noRoom, ap, rfl, rfl, rfl, h, hinside⟩
  | succ fuel ih =>
    unfold argparseLoopAt
    by_cases hlt : p < q.length
    · obtain ⟨hpend, hpair, hrest, hlater, hnext⟩ := pairEnd_slice hlt
      have hstep := segments_step (slice q p q.length)
      have hsome : slice q p q.length ≠ [] := fun hnil => by
        have := (slice_eq_nil (Nat.le_refl _)).1 hnil
        omega
      rw [if_pos hlt, pairEndAt_eq (Nat.le_refl _) hp (Nat.le_refl _)]
      simp only [Option.bind_eq_bind, Option.bind_some]
      rw [argparseLoop, if_neg hsome]
      dsimp only
      set pend := p + ((slice q p q.length).takeWhile (!isAmp ·)).length with hpendeq
      set next := if pend < q.length then pend + 1 else pend with hnexteq
      by_cases hempty : (slice q p q.length).takeWhile (!isAmp ·) = []
      · have heq : pend = p := by rw [hpendeq, hempty]; rfl
        rw [if_pos hempty, List.nil_append, ← hrest] at hstep
        rw [hstep] at h ⊢
        rw [if_pos heq, if_pos hempty, ← hrest]
        exact ih hnext (by omega) h hinside
      · have hne : pend ≠ p := fun heq => hempty (List.length_eq_zero_iff.1 (by omega))
        rw [if_neg hempty, ← hrest] at hstep
        have hcount : (segments (slice q p q.length)).length =
            (segments (slice q next q.length)).length + 1 := by
          rw [hstep]
          simp
        rw [if_neg hne, if_neg hempty, ← hrest, ← hpair]
        obtain ⟨eq, heq, hread, hin⟩ := strlchrAt_span (p := p) hpend
        rw [heq]
        simp only [Option.bind_some]
        rw [hcount] at h ⊢
        rcases @growAt_spec _ _ palloc _ _ hp hcount (Nat.succ_pos _) h with
          ⟨hno, hgrow⟩ | ⟨ap1, hgrow, hspans, hfirst, hroom, hsized, hiff⟩
        · rw [hgrow]
          exact Or.inl ⟨hno, rfl⟩
        · rw [hgrow, ← hiff]
          simp only [Option.bind_some]
          rw [pushSpan, if_pos hroom]
          simp only [Option.bind_some]
          rw [markFirst_eq _ hin.name]
          simp only [Option.bind_some]
          set ap2 : ArgParseAt :=
            { ap1 with
              spans := ap1.spans ++ [spanAt p pend eq]
              nameFirst := firstMark ((spanAt p pend eq).read q) ap1.nameFirst } with hap2
          have hlen2 : ap2.spans.length = ap1.spans.length + 1 := List.length_append
          have hsized2 : Sized ap2 (segments (slice q next q.length)).length := by
            cases hsized with
            | stack hpool hcap hle => exact .stack hpool hcap (by omega)
            | pool hpool hcap hmany =>
              exact .pool hpool (by rw [hlen2]; exact hcap.trans (by omega)) (by omega)
          have hno2 : NoRoom palloc ap2 (segments (slice q next q.length)).length ↔
              NoRoom palloc ap1 ((segments (slice q next q.length)).length + 1) := by
            unfold NoRoom
            rw [hlen2, Nat.add_assoc, Nat.add_comm 1]
          have hread2 : ap2.read q =
              { spans := (ap.read q).spans ++ [argSpan (slice q p pend)]
                nameFirst := firstMark (argSpan (slice q p pend)) (ap.read q).nameFirst } := by
            simp only [hap2, ArgParseAt.read, List.map_append, List.map_cons, List.map_nil, hread,
              hspans, hfirst]
          have hinside2 : ∀ sp ∈ ap2.spans, sp.Inside q := by
            intro sp hsp
            rcases List.mem_append.1 hsp with hsp | hsp
            · exact hinside sp (hspans ▸ hsp)
            · exact List.mem_singleton.1 hsp ▸ hin
          rcases ih hnext (by omega) hsized2 hinside2 with
            ⟨hno, herr⟩ | ⟨hno, ap', hok, hap', hlen', hend⟩
          · exact Or.inl ⟨hno2.1 hno, herr⟩
          · refine Or.inr ⟨fun h => hno (hno2.2 h), ap', hok, ?_, ?_, hend⟩
            · rw [hap', hread2]
              rfl
            · rw [hlen', hlen2, hspans]
              omega
    · have hnil := (slice_eq_nil (Nat.le_refl _)).2 (show q.length ≤ p by omega)
      rw [hnil, segments_nil] at h ⊢
      rw [if_neg hlt]
      exact Or.inr ⟨h.not_noRoom, ap, rfl, rfl, rfl, h, hinside⟩

end Walk

/-- The list model records the pairs, and marks their first bytes. -/
theorem argparseLoop_eq {fuel : ℕ} {p : Bytes} (ap : ArgParse) (hfuel : p.length ≤ fuel) :
    argparseLoop ap fuel p =
      ⟨ap.spans ++ (segments p).map argSpan,
        ((segments p).map argSpan).foldl (fun marks sp => firstMark sp marks) ap.nameFirst⟩ := by
  induction fuel generalizing p ap with
  | zero =>
    rw [List.length_eq_zero_iff.1 (Nat.le_zero.1 hfuel), segments_nil]
    simp [argparseLoop]
  | succ fuel ih =>
    unfold argparseLoop
    by_cases hp : p = []
    · rw [if_pos hp, hp, segments_nil]
      simp
    · have hlt := afterPair_length_lt hp
      rw [if_neg hp, segments_step p]
      dsimp only
      by_cases hpair : p.takeWhile (!isAmp ·) = []
      · rw [if_pos hpair, if_pos hpair, ih ap (by omega)]
        rfl
      · rw [if_neg hpair, if_neg hpair, ih _ (by omega)]
        simp only [List.map_cons, List.append_assoc, List.singleton_append, List.foldl_cons]
        rfl

theorem mem_foldl_firstMark {c : UInt8} {sps : List ArgSpan} {marks : List UInt8} :
    c ∈ sps.foldl (fun marks sp => firstMark sp marks) marks ↔
      c ∈ marks ∨ ∃ sp ∈ sps, ∃ b cs, sp.name = b :: cs ∧ c = qsFirstMangled b cs := by
  induction sps generalizing marks with
  | nil => simp
  | cons sp sps ih =>
    rw [List.foldl_cons, ih]
    have hmark : c ∈ firstMark sp marks ↔
        c ∈ marks ∨ ∃ b cs, sp.name = b :: cs ∧ c = qsFirstMangled b cs := by
      unfold firstMark
      cases sp.name with
      | nil => simp
      | cons b cs => simp [or_comm]
    rw [hmark, List.exists_mem_cons_iff, or_assoc]

/-- **No rule is passed over** whose name a pair has. -/
theorem nameFirstRules_of_mem {ap : ArgParse} {sps : List ArgSpan} {name : Bytes} {sp : ArgSpan}
    (hfirst : ap.nameFirst = sps.foldl (fun marks sp => firstMark sp marks) []) (hsp : sp ∈ sps)
    (h : nameText sp.name = name) : nameFirstRules ap name = false := by
  have htext : qsText true sp.name = name := h
  cases hname : sp.name with
  | nil =>
    rw [hname, qsText_nil] at htext
    rw [← htext]
    rfl
  | cons b cs =>
    rw [hname, qsText_cons] at htext
    rw [← htext, nameFirstRules]
    simp only [Bool.not_eq_eq_eq_not, Bool.not_false, decide_eq_true_eq]
    rw [hfirst, mem_foldl_firstMark]
    exact Or.inr ⟨sp, hsp, b, cs, hname, rfl⟩

/-- A loop that stops at the first hit. -/
theorem anyM_iff {α : Type} {f : α → Option Bool} {P : α → Prop} {l : List α}
    (h : ∀ a ∈ l, ∃ b, f a = some b ∧ (b = true ↔ P a)) :
    ∃ b, l.anyM f = some b ∧ (b = true ↔ ∃ a ∈ l, P a) := by
  induction l with
  | nil => exact ⟨false, rfl, by simp⟩
  | cons a l ih =>
    obtain ⟨⟨b, ha, hb⟩, hl⟩ := List.forall_mem_cons.1 h
    obtain ⟨b', hrest, hb'⟩ := ih hl
    rw [List.anyM_cons, ha, List.exists_mem_cons_iff, ← hb, ← hb']
    cases b with
    | true => exact ⟨true, rfl, by simp⟩
    | false => exact ⟨b', hrest, by simp⟩

/-- One rule against one span. -/
theorem argRuleAt_eq {q : Bytes} {ap : ArgParseAt} {sp : SpanAt} {sps : List ArgSpan}
    (hfirst : ap.nameFirst = sps.foldl (fun marks sp => firstMark sp marks) [])
    (hin : sp.Inside q) (hsp : sp.read q ∈ sps) (ar : ArgRule) :
    ∃ b, argRuleAt q ap sp ar = some b ∧ (b = true ↔ Reads ar (sp.read q)) := by
  unfold argRuleAt
  by_cases hskip : nameFirstRules ⟨[], ap.nameFirst⟩ ar.name = true
  · rw [if_pos hskip]
    refine ⟨false, rfl, iff_of_false (by decide) fun hreads => ?_⟩
    have hnot := @nameFirstRules_of_mem ⟨[], ap.nameFirst⟩ _ _ _ hfirst hsp hreads.name
    rw [hnot] at hskip
    cases hskip
  · rw [if_neg hskip, qsEqAt_eq _ _ hin.name (Nat.le_refl _) (Nat.zero_le _)]
    simp only [Option.bind_eq_bind, Option.bind_some, List.drop_zero, decide_eq_true_eq]
    by_cases htext : qsText true (slice q sp.nameStart sp.nameEnd) = ar.name
    · rw [if_pos htext]
      cases hv : ar.value with
      | none => exact ⟨true, rfl, iff_of_true rfl ⟨htext, fun v h => by rw [hv] at h; cases h⟩⟩
      | some v =>
        cases hs : sp.value with
        | none =>
          refine ⟨false, rfl, iff_of_false (by decide) fun h => ?_⟩
          have hval := h.value v hv
          rw [SpanAt.read, hs] at hval
          cases hval
        | some w =>
          obtain ⟨b, e⟩ := w
          dsimp only
          rw [qsEqAt_eq _ _ (hin.value b e hs) (Nat.le_refl _) (Nat.zero_le _), List.drop_zero]
          have hread : (sp.read q).value.map valueText = some (valueText (slice q b e)) := by
            rw [SpanAt.read, hs]
            rfl
          refine ⟨_, rfl, decide_eq_true_iff.trans ⟨fun h => ⟨htext, fun v' hv' => ?_⟩, fun h => ?_⟩⟩
          · obtain rfl := Option.some.inj (hv.symm.trans hv')
            exact hread.trans (congrArg some h)
          · exact Option.some.inj (hread.symm.trans (h.value v hv))
    · rw [if_neg htext]
      exact ⟨false, rfl, iff_of_false (by decide) fun h => htext h.name⟩

/-- **The argument rules match as the application reads the query.**  The build fails only where
the pool has no room for the pairs behind the first 64, or their size cannot be counted; the spans
are those of the other model, one for each pair, and an array of the pool is as long as they are;
and a rule matches exactly where a pair has its decoded name and value.  No read is behind the
query and no write behind the array. -/
theorem arg_rules_match_iff (q : Bytes) (palloc : Bool) :
    (argsMax < (segments q).length ∧ (palloc = false ∨ spansMax < (segments q).length) ∧
        argparseBuildAt palloc q = some .error) ∨
      ¬ (argsMax < (segments q).length ∧ (palloc = false ∨ spansMax < (segments q).length)) ∧
      ∃ ap, argparseBuildAt palloc q = some (.ok ap) ∧ ap.read q = argparseBuild q ∧
        ap.spans.length = (segments q).length ∧
        (ap.pool = true ↔ argsMax < (segments q).length) ∧
        (ap.pool = true → ap.capacity = ap.spans.length) ∧
        ∀ rules, ∃ b, argRulesMatchAt q ap rules = some b ∧
          (b = true ↔ ∃ seg ∈ segments q, ∃ ar ∈ rules, Reads ar ⟨segName seg, segValue seg⟩) := by
  have hloop := @argparseLoopAt_spec q 0 palloc q.length ⟨[], argsMax, false, []⟩
    (Nat.zero_le _) (Nat.le_refl _) (.stack rfl rfl (Nat.zero_le _))
    (fun _ h => absurd h List.not_mem_nil)
  rw [slice_full] at hloop
  have hno : NoRoom palloc ⟨[], argsMax, false, []⟩ (segments q).length ↔
      argsMax < (segments q).length ∧ (palloc = false ∨ spansMax < (segments q).length) := by
    simp [NoRoom]
  rw [hno] at hloop
  rcases hloop with ⟨hnoroom, herr⟩ | ⟨hroom, ap, hok, hread, hlen, hsized, hinside⟩
  · exact Or.inl ⟨hnoroom.1, hnoroom.2, herr⟩
  have hcount : ap.spans.length = (segments q).length := hlen.trans (Nat.zero_add _)
  refine Or.inr ⟨hroom, ap, hok, hread, hcount, ?_, ?_, fun rules => ?_⟩
  · cases hsized with
    | stack hpool hcap hle =>
      rw [hpool]
      exact iff_of_false (by decide) (by omega)
    | pool hpool hcap hmany =>
      rw [hpool]
      exact iff_of_true rfl (by omega)
  · intro hpool
    cases hsized with
    | stack hpool' =>
      rw [hpool] at hpool'
      cases hpool'
    | pool hpool hcap => exact hcap
  · rw [argparseLoop_eq _ (Nat.le_refl q.length)] at hread
    have hspans : ap.spans.map (SpanAt.read q) = (segments q).map argSpan :=
      congrArg ArgParse.spans hread
    have hfirst : ap.nameFirst =
        ((segments q).map argSpan).foldl (fun marks sp => firstMark sp marks) [] :=
      congrArg ArgParse.nameFirst hread
    have hany : ∃ b, ap.spans.anyM (fun sp => rules.anyM (argRuleAt q ap sp)) = some b ∧
        (b = true ↔ ∃ sp ∈ ap.spans, ∃ ar ∈ rules, Reads ar (sp.read q)) :=
      anyM_iff fun sp hsp => anyM_iff fun ar _ =>
        argRuleAt_eq hfirst (hinside sp hsp) (hspans ▸ List.mem_map_of_mem hsp) ar
    have hpairs : (∃ sp ∈ ap.spans, ∃ ar ∈ rules, Reads ar (sp.read q)) ↔
        ∃ seg ∈ segments q, ∃ ar ∈ rules, Reads ar ⟨segName seg, segValue seg⟩ := by
      have hmap : (∃ pair ∈ ap.spans.map (SpanAt.read q), ∃ ar ∈ rules, Reads ar pair) ↔
          ∃ pair ∈ (segments q).map argSpan, ∃ ar ∈ rules, Reads ar pair := by rw [hspans]
      simpa only [List.mem_map, exists_exists_and_eq_and, argSpan_eq] using hmap
    unfold argRulesMatchAt
    by_cases hrules : rules = []
    · rw [if_pos hrules]
      refine ⟨false, rfl, iff_of_false (by decide) ?_⟩
      rintro ⟨seg, -, ar, har, -⟩
      rw [hrules] at har
      cases har
    · obtain ⟨b, hb, hiff⟩ := hany
      rw [if_neg hrules]
      exact ⟨b, hb, hiff.trans hpairs⟩

end Match
end CacheTurbo
