/-
# The axes a `Vary` names

`ngx_http_cache_turbo_classify_vary` as it runs (`ngx_http_cache_turbo_vary.c`): over the response's
header list, and in each live `Vary` line from token to token.  A token may be excused, by
`cache_turbo_vary_ignore` or by a preset that skips every request with the header; the others set the
bit of an axis or refuse the response.

What is left of the tokens is `remaining`.  Each output of the run is a question about it that is
asked of every token alone and in any case (`outcome`).
-/

import CacheTurbo.Http.NormalizedArgs
import CacheTurbo.Http.StoredVariant
import CacheTurbo.Lib.Pieces

namespace CacheTurbo
namespace Http
namespace ClassifyVary

open Bytes Pieces
open NormalizedArgs (strncasecmpEq)

/-! ## The walk -/

/-- `a.len == b.len && ngx_strncasecmp(a.data, b.data, a.len) == 0`. -/
def nameEq (a b : Bytes) : Bool := a.length == b.length && strncasecmpEq a b

/-- `ngx_http_cache_turbo_vary_ignore_match`; an array that is not set is empty. -/
def varyIgnoreMatch (conf : VaryConf) (tok : Bytes) : Bool :=
  conf.varyIgnore.any fun ignored => nameEq ignored tok

/-- `ngx_http_cache_turbo_req_header_named`: also a header that a module has deleted. -/
def reqHeaderNamed (r : Request) (name : Bytes) : Bool :=
  r.headersIn.headers.any fun h => nameEq h.key name

/-- `ngx_http_cache_turbo_vary_preset_satisfied`: the first name that matches returns. -/
def varyPresetSatisfied (r : Request) (tok : Bytes) : List Bytes → Bool
  | [] => false
  | nm :: names =>
    if nameEq nm tok then !reqHeaderNamed r tok else varyPresetSatisfied r tok names

/-- `ngx_http_cache_turbo_classify_vary_next_token`: a token, or none, and where the scan stands
then. -/
def nextToken (s : Bytes) : Option Bytes × Bytes :=
  let s := s.dropWhile isVarySep
  let tok := s.takeWhile (!isVarySep ·)
  (if tok.length = 0 then none else some tok, s.dropWhile (!isVarySep ·))

/-- The token loop of a line, `while (s < e)`; `none` when `fuel` rounds do not end it. -/
def tokenLoop (conf : VaryConf) (r : Request) (encoded : Bool) :
    ℕ → Bytes → VaryClass → Option VaryClass
  | 0, s, c => if s = [] then some c else none
  | fuel + 1, s, c =>
    if s = [] then some c
    else
      match nextToken s with
      | (none, s) => tokenLoop conf r encoded fuel s c
      | (some tok, s) =>
        if varyIgnoreMatch conf tok then tokenLoop conf r encoded fuel s c
        else if varyPresetSatisfied r tok conf.autoSkipHeaders then
          tokenLoop conf r encoded fuel s c
        else tokenLoop conf r encoded fuel s (classifyToken encoded c tok)

/-- The walk over the header list. -/
def headerLoop (conf : VaryConf) (r : Request) (encoded : Bool) (fuel : ℕ) :
    List Header → VaryClass → Option VaryClass
  | [], c => some c
  | h :: headers, c =>
    if isVaryHeader h then
      match tokenLoop conf r encoded fuel h.value c with
      | none => none
      | some c => headerLoop conf r encoded fuel headers c
    else headerLoop conf r encoded fuel headers c

/-- `ngx_http_cache_turbo_classify_vary`, with `fuel` rounds for the tokens of a line. -/
def classifyVaryRun (conf : VaryConf) (r : Request) (resp : ResponseHead) (fuel : ℕ) :
    Option VaryClass :=
  (headerLoop conf r (responseEncoded resp) fuel resp.headers ⟨0, false, false⟩).map fun c =>
    -- a refused axis wins over any safe axis
    if c.nocache then { c with bits := 0 } else c

/-! ## What it says of a list of tokens -/

/-- The axes a response is kept apart by. -/
inductive Axis
  | encoding
  | device
  | lang
  | origin
  deriving DecidableEq, Repr

/-- The request header of an axis. -/
def Axis.header : Axis → Bytes
  | .encoding => lit ['A', 'c', 'c', 'e', 'p', 't', '-', 'E', 'n', 'c', 'o', 'd', 'i', 'n', 'g']
  | .device => lit ['U', 's', 'e', 'r', '-', 'A', 'g', 'e', 'n', 't']
  | .lang => lit ['A', 'c', 'c', 'e', 'p', 't', '-', 'L', 'a', 'n', 'g', 'u', 'a', 'g', 'e']
  | .origin => lit ['O', 'r', 'i', 'g', 'i', 'n']

/-- The bit of an axis. -/
def Axis.bit : Axis → ℕ
  | .encoding => varyEncoding
  | .device => varyDevice
  | .lang => varyLang
  | .origin => varyOrigin

/-- All axes. -/
def axes : List Axis := [.encoding, .device, .lang, .origin]

/-- A token that names an axis, in any case. -/
def Supported (tok : Bytes) : Prop := ∃ axis ∈ axes, eqFold tok axis.header = true

/-- An axis counts where a token names it; that of the encoding only for an encoded response. -/
def Axis.counts (encoded : Bool) (toks : List Bytes) (axis : Axis) : Bool :=
  (axis != .encoding || encoded) && toks.any fun tok => eqFold tok axis.header

/-- The bits of the axes that count. -/
def unionBits (encoded : Bool) (toks : List Bytes) : ℕ :=
  (axes.filter (Axis.counts encoded toks)).foldr (fun axis bits => axis.bit ||| bits) 0

/-- The tokens of the live `Vary` lines. -/
def varyList (headers : List Header) : List Bytes :=
  (headers.filter isVaryHeader).flatMap fun h => varyTokens h.value

/-- A token that the configuration excuses. -/
def excused (conf : VaryConf) (r : Request) (tok : Bytes) : Bool :=
  varyIgnoreMatch conf tok || varyPresetSatisfied r tok conf.autoSkipHeaders

/-- The tokens that are not excused. -/
def remaining (conf : VaryConf) (r : Request) (headers : List Header) : List Bytes :=
  (varyList headers).filter fun tok => !excused conf r tok

/-! ## One token -/

/-- A token without an axis. -/
def refuses (tok : Bytes) : Bool := !axes.any fun axis => eqFold tok axis.header

/-- The tokens that refuse a response by their name. -/
def vetoes : List Bytes :=
  [lit ['*'], lit ['C', 'o', 'o', 'k', 'i', 'e'],
    lit ['A', 'u', 't', 'h', 'o', 'r', 'i', 'z', 'a', 't', 'i', 'o', 'n']]

/-- A token that neither names an axis nor refuses by its name. -/
def unknown (tok : Bytes) : Bool := refuses tok && !vetoes.any fun name => eqFold tok name

theorem refuses_iff (tok : Bytes) : refuses tok = true ↔ ¬ Supported tok := by
  rw [refuses, Bool.not_eq_true', ← Bool.not_eq_true, List.any_eq_true]
  rfl

theorem sameName_eq_eqFold (a b : Bytes) : sameName a b = eqFold a b := by
  cases h : eqFold a b with
  | false => rw [sameName, h, Bool.and_false]
  | true =>
    have hlen := congrArg List.length (beq_iff_eq.1 h)
    rw [List.length_map, List.length_map] at hlen
    rw [sameName, hlen, beq_self_eq_true, h, Bool.true_and]

/-- A `*` has no other case. -/
theorem eq_star_iff (tok : Bytes) : tok = lit ['*'] ↔ eqFold tok (lit ['*']) = true := by
  constructor
  · rintro rfl
    rfl
  · intro h
    rw [eqFold, beq_iff_eq] at h
    rcases tok with _ | ⟨c, _ | ⟨d, rest⟩⟩
    · cases h
    · have hc : lower c = lower 42 := (List.cons.inj h).1
      rcases NormalizedArgs.eq_lower_or_upper hc with rfl | rfl
      · rfl
      · rfl
    · cases (List.cons.inj h).2

theorem orBits_filter_or (l : List Axis) (f g : Axis → Bool) :
    (l.filter fun axis => f axis || g axis).foldr (fun axis bits => axis.bit ||| bits) 0 =
      (l.filter f).foldr (fun axis bits => axis.bit ||| bits) 0 |||
        (l.filter g).foldr (fun axis bits => axis.bit ||| bits) 0 := by
  induction l with
  | nil => exact (Nat.or_self 0).symm
  | cons axis l ih =>
    cases hf : f axis <;> cases hg : g axis <;>
      simp [hf, hg, ih, Nat.or_assoc, Nat.or_left_comm]

theorem unionBits_cons (encoded : Bool) (tok : Bytes) (toks : List Bytes) :
    unionBits encoded (tok :: toks) = unionBits encoded [tok] ||| unionBits encoded toks := by
  have hcounts : Axis.counts encoded (tok :: toks) = fun axis =>
      Axis.counts encoded [tok] axis || Axis.counts encoded toks axis := by
    funext axis
    simp only [Axis.counts, List.any_cons, List.any_nil, Bool.or_false, Bool.and_or_distrib_left]
  rw [unionBits, hcounts]
  exact orBits_filter_or axes _ _

theorem unionBits_eq_zero {encoded : Bool} {toks : List Bytes}
    (h : ∀ axis, Axis.counts encoded toks axis = false) : unionBits encoded toks = 0 := by
  have hnone : axes.filter (Axis.counts encoded toks) = [] :=
    List.filter_eq_nil_iff.2 fun axis _ => Bool.not_eq_true _ ▸ h axis
  rw [unionBits, hnone, List.foldr_nil]

section SameToken

variable {tok key : Bytes} (h : tok.map lower = key.map lower)

include h

theorem eqFold_congr (name : Bytes) : eqFold tok name = eqFold key name := by
  rw [eqFold, h, eqFold]

theorem refuses_congr : refuses tok = refuses key := by
  simp only [refuses, eqFold_congr h]

theorem unknown_congr : unknown tok = unknown key := by
  simp only [unknown, refuses_congr h, eqFold_congr h]

theorem unionBits_congr (encoded : Bool) : unionBits encoded [tok] = unionBits encoded [key] := by
  have hcounts : Axis.counts encoded [tok] = Axis.counts encoded [key] := by
    funext axis
    simp only [Axis.counts, List.any_cons, eqFold_congr h, List.any_nil]
  rw [unionBits, hcounts, unionBits]

end SameToken

/-- **One token** adds the bits of its axis, or refuses. -/
theorem classifyToken_eq (encoded : Bool) (c : VaryClass) (tok : Bytes) :
    classifyToken encoded c tok =
      ⟨c.bits ||| unionBits encoded [tok], c.nocache || refuses tok,
        c.unsafeAxis || unknown tok⟩ := by
  have harm : ∀ (key : Bytes) (veto : Bool) (bits : ℕ), eqFold tok key = true →
      refuses key = veto → unknown key = false → unionBits encoded [key] = bits →
      (⟨c.bits ||| unionBits encoded [tok], c.nocache || refuses tok,
        c.unsafeAxis || unknown tok⟩ : VaryClass) =
        ⟨c.bits ||| bits, c.nocache || veto, c.unsafeAxis⟩ := by
    intro key veto bits h hveto hunknown hbits
    rw [eqFold, beq_iff_eq] at h
    rw [refuses_congr h, unknown_congr h, unionBits_congr h, hveto, hunknown, hbits,
      Bool.or_false]
  unfold classifyToken
  simp only [sameName_eq_eqFold, eq_star_iff]
  split_ifs with hstar hcookie hauth hencoding hencoded hdevice hlang horigin
  · rw [harm _ true 0 hstar (by decide) (by decide) (by cases encoded <;> decide), Nat.or_zero,
      Bool.or_true]
  · rw [harm _ true 0 hcookie (by decide) (by decide) (by cases encoded <;> decide), Nat.or_zero,
      Bool.or_true]
  · rw [harm _ true 0 hauth (by decide) (by decide) (by cases encoded <;> decide), Nat.or_zero,
      Bool.or_true]
  · subst hencoded
    rw [harm _ false varyEncoding hencoding (by decide) (by decide) (by decide), Bool.or_false]
  · rw [Bool.not_eq_true] at hencoded
    subst hencoded
    rw [harm _ false 0 hencoding (by decide) (by decide) (by decide), Nat.or_zero, Bool.or_false]
  · rw [harm _ false varyDevice hdevice (by decide) (by decide) (by cases encoded <;> decide),
      Bool.or_false]
  · rw [harm _ false varyLang hlang (by decide) (by decide) (by cases encoded <;> decide),
      Bool.or_false]
  · rw [harm _ false varyOrigin horigin (by decide) (by decide) (by cases encoded <;> decide),
      Bool.or_false]
  · have haxes : ∀ axis : Axis, eqFold tok axis.header = false := by
      intro axis
      rw [← Bool.not_eq_true]
      cases axis with
      | encoding => exact hencoding
      | device => exact hdevice
      | lang => exact hlang
      | origin => exact horigin
    have hrefuses : refuses tok = true := by simp [refuses, haxes]
    have hunknown : unknown tok = true := by
      simp only [Bool.not_eq_true] at hstar hcookie hauth
      simp [unknown, hrefuses, vetoes, hstar, hcookie, hauth]
    have hbits : unionBits encoded [tok] = 0 :=
      unionBits_eq_zero fun axis => by simp [Axis.counts, haxes axis]
    rw [hrefuses, hunknown, hbits, Nat.or_zero, Bool.or_true, Bool.or_true]

/-! ## A list of tokens -/

theorem foldl_classifyToken (encoded : Bool) (toks : List Bytes) (c : VaryClass) :
    toks.foldl (classifyToken encoded) c =
      ⟨c.bits ||| unionBits encoded toks, c.nocache || toks.any refuses,
        c.unsafeAxis || toks.any unknown⟩ := by
  induction toks generalizing c with
  | nil =>
    have hbits : unionBits encoded [] = 0 :=
      unionBits_eq_zero fun axis => by rw [Axis.counts, List.any_nil, Bool.and_false]
    rw [hbits, List.foldl_nil, List.any_nil, List.any_nil, Nat.or_zero, Bool.or_false,
      Bool.or_false]
  | cons tok toks ih =>
    rw [List.foldl_cons, ih, classifyToken_eq, unionBits_cons encoded tok toks, List.any_cons, List.any_cons,
      Nat.or_assoc, Bool.or_assoc, Bool.or_assoc]

/-- What a list of tokens says of a response. -/
def outcome (encoded : Bool) (toks : List Bytes) : VaryClass where
  bits       := if toks.any refuses then 0 else unionBits encoded toks
  nocache    := toks.any refuses
  unsafeAxis := toks.any unknown

/-! ## The loops -/

section Loops

variable (conf : VaryConf) (r : Request) (encoded : Bool)

theorem varyTokens_eq_pieces (s : Bytes) : varyTokens s = pieces isVarySep s := rfl

theorem nextToken_none {s rest : Bytes} (h : nextToken s = (none, rest)) :
    varyTokens s = [] ∧ rest = [] := by
  rw [nextToken, Prod.mk.injEq] at h
  obtain ⟨htok, hrest⟩ := h
  have hnil : (s.dropWhile isVarySep).takeWhile (!isVarySep ·) = [] := by
    by_contra hne
    rw [if_neg fun hlen => hne (List.length_eq_zero_iff.1 hlen)] at htok
    cases htok
  -- no separator is left in front, so an empty token is the end of the line
  have hend : s.dropWhile isVarySep = [] := by
    cases hs : s.dropWhile isVarySep with
    | nil => rfl
    | cons c t =>
      have hhead := List.head?_dropWhile_not isVarySep s
      rw [hs] at hhead hnil
      have hc : isVarySep c = false := hhead
      rw [List.takeWhile_cons_of_pos (by rw [hc, Bool.not_false])] at hnil
      cases hnil
  rw [varyTokens_eq_pieces, ← pieces_dropWhile, hend, pieces_nil]
  rw [hend] at hrest
  exact ⟨rfl, hrest.symm⟩

theorem nextToken_some {s tok rest : Bytes} (h : nextToken s = (some tok, rest)) :
    varyTokens s = tok :: varyTokens rest ∧ rest.length < s.length := by
  rw [nextToken, Prod.mk.injEq] at h
  obtain ⟨htok, hrest⟩ := h
  by_cases hlen : ((s.dropWhile isVarySep).takeWhile (!isVarySep ·)).length = 0
  · rw [if_pos hlen] at htok
    cases htok
  · rw [if_neg hlen, Option.some_inj] at htok
    have hne : (s.dropWhile isVarySep).takeWhile (!isVarySep ·) ≠ [] := fun hnil =>
      hlen (List.length_eq_zero_iff.2 hnil)
    have hsum : tok.length + rest.length = (s.dropWhile isVarySep).length := by
      rw [← htok, ← hrest, ← List.length_append, List.takeWhile_append_dropWhile]
    have hle := List.length_dropWhile_le isVarySep s
    have hpos : tok.length ≠ 0 := htok ▸ hlen
    rw [varyTokens_eq_pieces, ← pieces_dropWhile, pieces_of_takeWhile hne, htok, hrest]
    exact ⟨rfl, by omega⟩

/-- **The token loop reads the tokens of the line**, in no more rounds than it has bytes. -/
theorem tokenLoop_eq {fuel : ℕ} {s : Bytes} (hfuel : s.length ≤ fuel) (c : VaryClass) :
    tokenLoop conf r encoded fuel s c =
      some (((varyTokens s).filter fun tok => !excused conf r tok).foldl
        (classifyToken encoded) c) := by
  induction fuel generalizing s c with
  | zero =>
    rw [List.length_eq_zero_iff.1 (Nat.le_zero.1 hfuel)]
    rfl
  | succ fuel ih =>
    by_cases hs : s = []
    · subst hs
      rfl
    · rw [tokenLoop, if_neg hs]
      rcases hnext : nextToken s with ⟨_ | tok, rest⟩
      · obtain ⟨hnone, rfl⟩ := nextToken_none hnext
        rw [hnone]
        exact ih (Nat.zero_le _) c
      · obtain ⟨hsome, hlt⟩ := nextToken_some hnext
        have hrest : rest.length ≤ fuel := Nat.le_of_lt_succ (hlt.trans_le hfuel)
        dsimp only
        rw [hsome, List.filter_cons, excused]
        cases varyIgnoreMatch conf tok with
        | true => exact ih hrest c
        | false =>
          cases varyPresetSatisfied r tok conf.autoSkipHeaders with
          | true => exact ih hrest c
          | false => exact ih hrest _

/-- The walk over the list reads the tokens of the live `Vary` lines. -/
theorem headerLoop_eq {fuel : ℕ} {headers : List Header}
    (hfuel : ∀ h ∈ headers, h.value.length ≤ fuel) (c : VaryClass) :
    headerLoop conf r encoded fuel headers c =
      some ((remaining conf r headers).foldl (classifyToken encoded) c) := by
  induction headers generalizing c with
  | nil => rfl
  | cons h headers ih =>
    have htail := fun c => ih (fun g hg => hfuel g (List.mem_cons_of_mem _ hg)) c
    rw [headerLoop, remaining, varyList, List.filter_cons]
    cases hvary : isVaryHeader h with
    | false => exact htail c
    | true =>
      rw [tokenLoop_eq conf r encoded (hfuel h List.mem_cons_self)]
      dsimp only
      rw [htail, if_pos rfl, if_pos rfl, List.flatMap_cons, List.filter_append, List.foldl_append]
      rfl

end Loops

/-- **A run ends, and its outputs are what the remaining tokens say.** -/
theorem classifyVaryRun_eq (conf : VaryConf) (r : Request) (resp : ResponseHead) {fuel : ℕ}
    (hfuel : ∀ h ∈ resp.headers, h.value.length ≤ fuel) :
    classifyVaryRun conf r resp fuel =
      some (outcome (responseEncoded resp) (remaining conf r resp.headers)) := by
  rw [classifyVaryRun, headerLoop_eq conf r (responseEncoded resp) hfuel, foldl_classifyToken,
    Option.map_some, outcome, Nat.zero_or, Bool.false_or, Bool.false_or]
  dsimp only
  cases (remaining conf r resp.headers).any refuses <;> rfl

/-! ## Names without NUL -/

theorem lower_ne_zero {c : UInt8} (h : c ≠ 0) : lower c ≠ 0 := by
  intro hlow
  rcases NormalizedArgs.eq_lower_or_upper (show lower c = lower 0 from hlow) with rfl | rfl
  · exact h rfl
  · exact h rfl

theorem strncasecmpEq_eq_eqFold {a b : Bytes} (hlen : a.length = b.length) (h : 0 ∉ b) :
    strncasecmpEq a b = eqFold a b := by
  induction a generalizing b with
  | nil => rw [List.length_eq_zero_iff.1 hlen.symm]; rfl
  | cons c a ih =>
    cases b with
    | nil => cases hlen
    | cons d b =>
      obtain ⟨hd, hb⟩ := List.ne_and_not_mem_of_not_mem_cons h
      rw [strncasecmpEq, ih (Nat.succ.inj hlen) hb, eqFold, eqFold, List.map_cons, List.map_cons,
        List.cons_beq_cons]
      cases hcd : lower c == lower d with
      | false => rfl
      | true =>
        have hc : (lower c == 0) = false :=
          beq_false_of_ne (beq_iff_eq.1 hcd ▸ lower_ne_zero hd.symm)
        rw [hc, Bool.false_or]

theorem nameEq_eq_sameName {a b : Bytes} (h : 0 ∉ b) : nameEq a b = sameName a b := by
  by_cases hlen : a.length = b.length
  · rw [nameEq, strncasecmpEq_eq_eqFold hlen h, sameName]
  · rw [nameEq, sameName, beq_false_of_ne hlen, Bool.false_and, Bool.false_and]

theorem nameEq_comm (a b : Bytes) : nameEq a b = nameEq b a := by
  have hcmp : strncasecmpEq a b = strncasecmpEq b a := by
    induction a generalizing b with
    | nil => cases b <;> rfl
    | cons c a ih =>
      cases b with
      | nil => rfl
      | cons d b =>
        rw [strncasecmpEq, strncasecmpEq, ih]
        by_cases hcd : lower c = lower d
        · rw [hcd]
        · rw [beq_false_of_ne hcd, beq_false_of_ne (Ne.symm hcd), Bool.false_and, Bool.false_and]
  rw [nameEq, nameEq, hcmp, BEq.comm]

/-- A name without NUL is compared to its end. -/
theorem nameEq_of_not_mem {name : Bytes} (h : 0 ∉ name) (tok : Bytes) :
    nameEq name tok = sameName name tok := by
  rw [nameEq_comm, nameEq_eq_sameName h, sameName_eq_eqFold, sameName_eq_eqFold, eqFold, eqFold,
    BEq.comm]

theorem not_mem_of_sameName {name tok : Bytes} (h : 0 ∉ name) (hsame : sameName name tok = true) :
    0 ∉ tok := by
  intro hmem
  rw [sameName_eq_eqFold, eqFold, beq_iff_eq] at hsame
  have hzero : lower 0 ∈ name.map lower := hsame ▸ List.mem_map_of_mem hmem
  obtain ⟨c, hc, hlow⟩ := List.mem_map.1 hzero
  have hne : c ≠ 0 := fun heq => h (heq ▸ hc)
  exact lower_ne_zero hne hlow

theorem varyPresetSatisfied_eq {names : List Bytes} (h : ∀ name ∈ names, 0 ∉ name) (r : Request)
    (tok : Bytes) :
    varyPresetSatisfied r tok names = (names.any (fun name => sameName name tok) &&
      !r.headersIn.headers.any fun h => sameName h.key tok) := by
  induction names with
  | nil => rfl
  | cons nm names ih =>
    have hnm : 0 ∉ nm := h nm List.mem_cons_self
    rw [varyPresetSatisfied, nameEq_of_not_mem hnm, List.any_cons,
      ih fun name hname => h name (List.mem_cons_of_mem _ hname)]
    cases hsame : sameName nm tok with
    | false => rfl
    | true =>
      simp only [reqHeaderNamed, nameEq_eq_sameName (not_mem_of_sameName hnm hsame), if_true,
        Bool.true_or, Bool.true_and]

/-- **Where no configured name has a NUL the run gives `classifyVary`.** -/
theorem classifyVaryRun_eq_classifyVary {conf : VaryConf}
    (hignore : ∀ name ∈ conf.varyIgnore, 0 ∉ name)
    (hskip : ∀ name ∈ conf.autoSkipHeaders, 0 ∉ name) (r : Request) (resp : ResponseHead)
    {fuel : ℕ} (hfuel : ∀ h ∈ resp.headers, h.value.length ≤ fuel) :
    classifyVaryRun conf r resp fuel = some (classifyVary conf r resp) := by
  have hmatch : ∀ tok, varyIgnoreMatch conf tok = Http.varyIgnoreMatch conf tok := by
    intro tok
    rw [Bool.eq_iff_iff, varyIgnoreMatch, Http.varyIgnoreMatch, List.any_eq_true, List.any_eq_true]
    refine exists_congr fun name => and_congr_right fun hname => ?_
    rw [nameEq_of_not_mem (hignore name hname)]
  have hexcused : ∀ tok, (!excused conf r tok) =
      (!Http.varyIgnoreMatch conf tok && !Http.varyPresetSatisfied conf r tok) := by
    intro tok
    rw [excused, hmatch, varyPresetSatisfied_eq hskip, Bool.not_or, Http.varyPresetSatisfied]
  rw [classifyVaryRun, headerLoop_eq conf r (responseEncoded resp) hfuel, remaining, varyList,
    classifyVary, Option.map_some]
  simp only [hexcused]

/-! ## The same list in other words -/

/-- Two lists with the same tokens, in any case. -/
def SameTokens (toks toks' : List Bytes) : Prop :=
  ∀ w, w ∈ toks.map (List.map lower) ↔ w ∈ toks'.map (List.map lower)

theorem SameTokens.any {toks toks' : List Bytes} (h : SameTokens toks toks') {f : Bytes → Bool}
    (hf : ∀ {tok key : Bytes}, tok.map lower = key.map lower → f tok = f key) :
    toks.any f = toks'.any f := by
  have hone : ∀ {l l' : List Bytes}, SameTokens l l' → l.any f = true → l'.any f = true := by
    intro l l' hsame hany
    obtain ⟨tok, htok, hftok⟩ := List.any_eq_true.1 hany
    obtain ⟨key, hkey, heq⟩ :=
      List.mem_map.1 ((hsame _).1 (List.mem_map.2 ⟨tok, htok, rfl⟩))
    exact List.any_eq_true.2 ⟨key, hkey, (hf heq).trans hftok⟩
  exact Bool.eq_iff_iff.2 ⟨hone h, hone fun w => (h w).symm⟩

theorem nameEq_congr {tok key : Bytes} (h : tok.map lower = key.map lower) (name : Bytes) :
    nameEq name tok = nameEq name key := by
  have hlen := congrArg List.length h
  rw [List.length_map, List.length_map] at hlen
  have hcmp : strncasecmpEq name tok = strncasecmpEq name key := by
    clear hlen
    induction name generalizing tok key with
    | nil => rfl
    | cons c name ih =>
      cases tok with
      | nil =>
        cases key with
        | nil => rfl
        | cons e key => cases h
      | cons d tok =>
        cases key with
        | nil => cases h
        | cons e key =>
          obtain ⟨hhead, htail⟩ := List.cons.inj h
          rw [strncasecmpEq, strncasecmpEq, hhead, ih htail]
  rw [nameEq, hlen, hcmp, nameEq]

theorem excused_congr (conf : VaryConf) (r : Request) {tok key : Bytes}
    (h : tok.map lower = key.map lower) : excused conf r tok = excused conf r key := by
  have hpreset : ∀ names : List Bytes,
      varyPresetSatisfied r tok names = varyPresetSatisfied r key names := by
    intro names
    induction names with
    | nil => rfl
    | cons nm names ih =>
      simp only [varyPresetSatisfied, reqHeaderNamed, nameEq_congr h, ih]
  rw [excused, varyIgnoreMatch, hpreset]
  simp only [nameEq_congr h]
  rw [excused, varyIgnoreMatch]

/-- **The outcome is a question about the tokens in any case.** -/
theorem outcome_congr (conf : VaryConf) (r : Request) (encoded : Bool) {headers headers' : List Header}
    (h : SameTokens (varyList headers) (varyList headers')) :
    outcome encoded (remaining conf r headers) = outcome encoded (remaining conf r headers') := by
  have hany : ∀ {f : Bytes → Bool},
      (∀ {tok key : Bytes}, tok.map lower = key.map lower → f tok = f key) →
      (remaining conf r headers).any f = (remaining conf r headers').any f := by
    intro f hf
    rw [remaining, remaining, List.any_filter, List.any_filter]
    exact h.any fun heq => by rw [excused_congr conf r heq, hf heq]
  have hbits : unionBits encoded (remaining conf r headers) =
      unionBits encoded (remaining conf r headers') := by
    have hcounts : Axis.counts encoded (remaining conf r headers) =
        Axis.counts encoded (remaining conf r headers') := by
      funext axis
      rw [Axis.counts, hany fun heq => eqFold_congr heq axis.header, Axis.counts]
    rw [unionBits, hcounts, unionBits]
  rw [outcome, hany refuses_congr, hany unknown_congr, hbits, outcome]

/-- No separator is a letter. -/
theorem isVarySep_lower (c : UInt8) : isVarySep (lower c) = isVarySep c := by
  have hall : ∀ n : Fin 256, isVarySep (lower (UInt8.ofFin n)) = isVarySep (UInt8.ofFin n) := by
    decide +kernel
  exact hall c.toFin

/-- **The classification of a `Vary` is sound.**  It ends for every response, it refuses exactly a
response with a token that is neither excused nor an axis, and then has no bits; otherwise its bits
are those of the axes that the remaining tokens name.  It is the same for every response with the
same tokens, in any order, on any lines and in any case; and what the tokens of a line are does not
depend on separators between, before or behind them. -/
theorem classify_vary_sound (conf : VaryConf) (r : Request) (resp : ResponseHead) :
    ∃ c : VaryClass,
      (∀ fuel, (∀ h ∈ resp.headers, h.value.length ≤ fuel) →
        classifyVaryRun conf r resp fuel = some c) ∧
      (c.nocache = true ↔ ∃ tok ∈ remaining conf r resp.headers, ¬ Supported tok) ∧
      (c.nocache = true → c.bits = 0) ∧
      (c.nocache = false →
        c.bits = unionBits (responseEncoded resp) (remaining conf r resp.headers)) ∧
      (∀ resp' : ResponseHead, responseEncoded resp' = responseEncoded resp →
        SameTokens (varyList resp'.headers) (varyList resp.headers) →
        ∀ fuel, (∀ h ∈ resp'.headers, h.value.length ≤ fuel) →
          classifyVaryRun conf r resp' fuel = some c) ∧
      ∀ (sep : UInt8) (a b : Bytes), isVarySep sep = true →
        varyTokens (a ++ sep :: b) = varyTokens a ++ varyTokens b ∧
        varyTokens (sep :: b) = varyTokens b ∧ varyTokens (a ++ [sep]) = varyTokens a ∧
        varyTokens (a.map lower) = (varyTokens a).map (List.map lower) := by
  refine ⟨outcome (responseEncoded resp) (remaining conf r resp.headers),
    fun fuel hfuel => classifyVaryRun_eq conf r resp hfuel, ?_, ?_, ?_, ?_, ?_⟩
  · rw [outcome, List.any_eq_true]
    simp only [refuses_iff]
  · intro hnocache
    exact if_pos hnocache
  · intro hnocache
    exact if_neg fun hany => Bool.false_ne_true (hnocache.symm.trans hany)
  · intro resp' hencoded hsame fuel hfuel
    rw [classifyVaryRun_eq conf r resp' hfuel, hencoded, outcome_congr conf r _ hsame]
  · intro sep a b hsep
    have hlast : varyTokens (a ++ [sep]) = varyTokens a ++ varyTokens [] :=
      pieces_append_sep hsep a []
    refine ⟨pieces_append_sep hsep a b, pieces_cons_sep hsep b, ?_,
      pieces_map isVarySep_lower a⟩
    rw [hlast, varyTokens_eq_pieces [], pieces_nil, List.append_nil]

end ClassifyVary
end Http
end CacheTurbo
