/-
# The bypass classifier

`ngx_http_cache_turbo_auto_skip` decides from a request whether its page is dynamic.
It exists twice in `ngx_http_cache_turbo_match.c`: the reference that the fuzzer runs
walks over the enabled presets (`autoSkipReference`); the one in production runs on the
structures that `ngx_http_cache_turbo_compile_auto_presets` builds at configuration
time (`autoSkip`).  The four tiers are compared one by one, and only the cookie tiers
differ.  Allocations succeed.
-/

import CacheTurbo.Match.CookieAc
import CacheTurbo.Match.Cookies

namespace CacheTurbo
namespace Match

open Bytes Incremental

/-! ## The request's arguments -/

/-- `ngx_http_cache_turbo_argspan_t`: a name, and a value where there is a `=`. -/
structure ArgSpan where
  name : Bytes
  value : Option Bytes
  deriving DecidableEq, Repr

/-- `ngx_http_cache_turbo_hexval`. -/
def hexval (c : UInt8) : Option UInt8 :=
  if 48 ≤ c ∧ c ≤ 57 then some (c - 48)
  else if 97 ≤ c ∧ c ≤ 102 then some (c - 97 + 10)
  else if 65 ≤ c ∧ c ≤ 70 then some (c - 65 + 10)
  else none

/-- The next byte, decoded, whether it was, and what is left. -/
def qsNext (c : UInt8) (rest : Bytes) : UInt8 × Bool × Bytes :=
  match rest with
  | h :: l :: tail =>
      if c = 37 then
        match hexval h, hexval l with
        | some hi, some lo => ((hi <<< 4) ||| lo, true, tail)
        | _, _ => (c, false, rest)
      else (c, false, rest)
  | _ => (c, false, rest)

/-- A byte of a name as the application sees it. -/
def qsMangle (c : UInt8) (decoded : Bool) : UInt8 :=
  if c = 43 ∧ decoded = false then 95 else if c = 46 ∨ c = 32 then 95 else c

/-- `ngx_http_cache_turbo_qs_eq`; every turn takes a byte at least. -/
def qsEqLoop (name : Bool) : ℕ → Bytes → Bytes → Bool
  | _, [], needle => decide (needle = [])
  | 0, _ :: _, _ => false
  | fuel + 1, c :: rest, needle =>
      let next := qsNext c rest
      let c := if name then qsMangle next.1 next.2.1 else next.1
      match needle with
      | [] => false
      | n :: ns => if c ≠ n then false else qsEqLoop name fuel next.2.2 ns

def qsEq (p needle : Bytes) (name : Bool) : Bool := qsEqLoop name p.length p needle

/-- `ngx_http_cache_turbo_qs_first_mangled`. -/
def qsFirstMangled (c : UInt8) (rest : Bytes) : UInt8 :=
  qsMangle (qsNext c rest).1 (qsNext c rest).2.1

/-- `ngx_http_cache_turbo_argparse_t`: the spans, and the bytes that a name begins with. -/
structure ArgParse where
  spans : List ArgSpan
  nameFirst : List UInt8
  deriving DecidableEq, Repr

/-- The end of a pair. -/
def isAmp (c : UInt8) : Bool := c == 38 || c == 59

/-- The loop of `ngx_http_cache_turbo_argparse_build`. -/
def argparseLoop (ap : ArgParse) : ℕ → Bytes → ArgParse
  | 0, _ => ap
  | fuel + 1, p =>
      if p = [] then ap
      else
        let pair := p.takeWhile (!isAmp ·)
        let rest := (p.dropWhile (!isAmp ·)).drop 1
        if pair = [] then argparseLoop ap fuel rest
        else
          let span : ArgSpan :=
            match cut 61 pair with
            | none => ⟨pair, none⟩
            | some (n, v) => ⟨n, some v⟩
          argparseLoop
            { spans := ap.spans ++ [span]
              nameFirst :=
                match span.name with
                | [] => ap.nameFirst
                | c :: cs => qsFirstMangled c cs :: ap.nameFirst } fuel rest

/-- `ngx_http_cache_turbo_argparse_build`. -/
def argparseBuild (args : Bytes) : ArgParse := argparseLoop ⟨[], []⟩ args.length args

/-- No name begins with the first byte of `name`. -/
def nameFirstRules (ap : ArgParse) (name : Bytes) : Bool :=
  match name with
  | [] => false
  | c :: _ => !decide (c ∈ ap.nameFirst)

/-- `ngx_http_cache_turbo_arg_match`. -/
def argMatch (ap : ArgParse) (name : Bytes) (value : Option Bytes) : Bool :=
  if nameFirstRules ap name then false
  else
    ap.spans.any fun sp =>
      if qsEq sp.name name true = false then false
      else
        match value, sp.value with
        | none, _ => true
        | some _, none => false
        | some v, some w => qsEq w v false

/-- `ngx_http_cache_turbo_auto_arg_rule_t`. -/
structure ArgRule where
  name : Bytes
  value : Option Bytes
  deriving DecidableEq, Repr

/-- A literal `name` or `name=value`. -/
def argRule (literal : Bytes) : ArgRule :=
  match cut 61 literal with
  | none => ⟨literal, none⟩
  | some (n, v) => ⟨n, some v⟩

/-- `ngx_http_cache_turbo_arg_rules_match`. -/
def argRulesMatch (ap : ArgParse) (rules : List ArgRule) : Bool :=
  if rules = [] then false
  else
    ap.spans.any fun sp => rules.any fun ar =>
      if nameFirstRules ap ar.name then false
      else if qsEq sp.name ar.name true = false then false
      else
        match ar.value with
        | none => true
        | some v =>
            match sp.value with
            | none => false
            | some w => qsEq w v false

/-- **The merged rules are the literals one by one.** -/
theorem argRulesMatch_map (ap : ArgParse) (literals : List Bytes) :
    argRulesMatch ap (literals.map argRule) = true ↔
      ∃ l ∈ literals, argMatch ap (argRule l).name (argRule l).value = true := by
  unfold argRulesMatch
  by_cases hnone : literals.map argRule = []
  · rw [if_pos hnone]
    obtain rfl := List.map_eq_nil_iff.1 hnone
    simp
  · rw [if_neg hnone, List.any_eq_true]
    constructor
    · rintro ⟨sp, hsp, hany⟩
      obtain ⟨ar, har, htest⟩ := List.any_eq_true.1 hany
      obtain ⟨l, hl, rfl⟩ := List.mem_map.1 har
      refine ⟨l, hl, ?_⟩
      unfold argMatch
      by_cases hfirst : nameFirstRules ap (argRule l).name = true
      · rw [if_pos hfirst] at htest
        cases htest
      · rw [if_neg hfirst] at htest ⊢
        refine List.any_eq_true.2 ⟨sp, hsp, Eq.trans ?_ htest⟩
        cases (argRule l).value <;> cases sp.value <;> rfl
    · rintro ⟨l, hl, hmatch⟩
      unfold argMatch at hmatch
      by_cases hfirst : nameFirstRules ap (argRule l).name = true
      · rw [if_pos hfirst] at hmatch
        cases hmatch
      · rw [if_neg hfirst] at hmatch
        obtain ⟨sp, hsp, htest⟩ := List.any_eq_true.1 hmatch
        refine ⟨sp, hsp, List.any_eq_true.2 ⟨_, List.mem_map.2 ⟨l, hl, rfl⟩, Eq.trans ?_ htest⟩⟩
        rw [if_neg hfirst]
        cases (argRule l).value <;> cases sp.value <;> rfl

/-! ## The request's Cookie lines -/

/-- `NGX_HTTP_CACHE_TURBO_COOKIE_BYTES_MAX`. -/
def cookieBytesMax : ℕ := 8192

/-- `ngx_http_cache_turbo_cookie_byteset_build`: the bytes of the lines, or `none` when there are
too many. -/
def cookieBytesetBuild (cookies : List Bytes) : Option (List UInt8) :=
  if cookies.flatten.length > cookieBytesMax then none else some cookies.flatten

/-- How the rest of a needle compares. -/
inductive Compare
  | nul
  | differs
  | equal
  deriving DecidableEq, Repr

/-- The inner loop of `ngx_http_cache_turbo_cookie_contains`. -/
def containsCompare : Bytes → Bytes → Compare
  | _, [] => .equal
  | [], _ :: _ => .differs
  | d :: ds, n :: ns => if d = 0 then .nul else if d ≠ n then .differs else containsCompare ds ns

/-- The outer loop of `ngx_http_cache_turbo_cookie_contains`, from an offset on. -/
def containsLoop (first : UInt8) (more : Bytes) : Bytes → Bool
  | [] => false
  | d :: ds =>
      if ds.length < more.length then false
      else if d = 0 then false
      else if d ≠ first then containsLoop first more ds
      else
        match containsCompare ds more with
        | .nul => false
        | .equal => true
        | .differs => containsLoop first more ds

/-- `ngx_http_cache_turbo_cookie_contains`. -/
def cookieContains (data needle : Bytes) : Bool :=
  match needle with
  | [] => false
  | first :: more => containsLoop first more data

/-- `ngx_http_cache_turbo_cookie_has`. -/
def cookieHas (cookies subs : List Bytes) (seen : List UInt8) : Bool :=
  subs.any fun needle =>
    match needle with
    | [] => true
    | c :: _ =>
        if c ∉ seen then false
        else cookies.any fun ck => if ck = [] then false else cookieContains ck needle

/-- `ngx_http_cache_turbo_cookie_ac_match`. -/
def cookieAcMatch (cookies : List Bytes) (ac : CookieAc) : Bool :=
  if ac.nnodes = 0 then false
  else cookies.any fun ck => if ck = [] then false else cookieAcScanOne ac ck

theorem containsCompare_iff {ds ns : Bytes} (hnul : (0 : UInt8) ∉ ds)
    (hlen : ns.length ≤ ds.length) :
    containsCompare ds ns = .equal ∧ ns <+: ds ∨ containsCompare ds ns = .differs ∧ ¬ ns <+: ds := by
  induction ns generalizing ds with
  | nil => exact Or.inl ⟨by cases ds <;> rfl, List.nil_prefix⟩
  | cons n ns ih =>
    cases ds with
    | nil => exact absurd hlen (by simp)
    | cons d ds =>
      rw [List.mem_cons, not_or] at hnul
      rw [containsCompare, if_neg (Ne.symm hnul.1)]
      by_cases hd : d = n
      · subst hd
        rw [if_neg (by simp), List.prefix_cons_inj]
        exact ih hnul.2 (by simpa using hlen)
      · rw [if_pos hd]
        exact Or.inr ⟨rfl, fun h => hd (List.cons_prefix_cons.1 h).1.symm⟩

/-- **The naive search finds a needle wherever it stands** in a line without NUL. -/
theorem cookieContains_iff {data needle : Bytes} (hne : needle ≠ []) (hnul : (0 : UInt8) ∉ data) :
    cookieContains data needle = true ↔ needle <:+: data := by
  obtain ⟨first, more, rfl⟩ := List.exists_cons_of_ne_nil hne
  rw [cookieContains]
  induction data with
  | nil =>
    constructor
    · nofun
    · exact fun h => absurd (List.infix_nil.1 h) hne
  | cons d ds ih =>
    rw [List.mem_cons, not_or] at hnul
    rw [containsLoop, List.infix_cons_iff]
    by_cases hshort : ds.length < more.length
    · rw [if_pos hshort]
      constructor
      · nofun
      · rintro (h | h)
        · have hle := h.length_le
          simp only [List.length_cons] at hle
          omega
        · have hle := h.length_le
          simp only [List.length_cons] at hle
          omega
    rw [if_neg hshort, if_neg (Ne.symm hnul.1)]
    by_cases hd : d = first
    · subst hd
      rw [if_neg (by simp), List.prefix_cons_inj]
      obtain ⟨hcmp, hpre⟩ | ⟨hcmp, hpre⟩ := containsCompare_iff hnul.2 (Nat.not_lt.1 hshort)
      · rw [hcmp]
        exact ⟨fun _ => Or.inl hpre, fun _ => rfl⟩
      · rw [hcmp]
        dsimp only
        rw [ih hnul.2]
        exact ⟨Or.inr, fun h => h.resolve_left hpre⟩
    · rw [if_pos hd, ih hnul.2]
      exact ⟨Or.inr, fun h => h.resolve_left fun hp => hd (List.cons_prefix_cons.1 hp).1.symm⟩

theorem cookieHas_iff {cookies subs : List Bytes} (hnul : ∀ ck ∈ cookies, (0 : UInt8) ∉ ck) :
    cookieHas cookies subs cookies.flatten = true ↔
      [] ∈ subs ∨ ∃ w ∈ subs, ∃ ck ∈ cookies, ck ≠ [] ∧ w <:+: ck := by
  unfold cookieHas
  rw [List.any_eq_true]
  constructor
  · rintro ⟨needle, hmem, htest⟩
    cases needle with
    | nil => exact Or.inl hmem
    | cons c cs =>
      right
      dsimp only at htest
      split at htest
      · cases htest
      · obtain ⟨ck, hck, hfound⟩ := List.any_eq_true.1 htest
        split at hfound
        · cases hfound
        · rename_i hne
          exact ⟨_, hmem, ck, hck, hne, (cookieContains_iff (by nofun) (hnul ck hck)).1 hfound⟩
  · rintro (hmem | ⟨w, hmem, ck, hck, hne, hinfix⟩)
    · exact ⟨[], hmem, rfl⟩
    · refine ⟨w, hmem, ?_⟩
      cases w with
      | nil => rfl
      | cons c cs =>
        have hseen : c ∈ cookies.flatten :=
          List.mem_flatten.2 ⟨ck, hck, hinfix.subset List.mem_cons_self⟩
        dsimp only
        rw [if_neg (not_not.2 hseen)]
        refine List.any_eq_true.2 ⟨ck, hck, ?_⟩
        rw [if_neg hne]
        exact (cookieContains_iff (by nofun) (hnul ck hck)).2 hinfix

/-- The flag of the root stays. -/
theorem finish_matched {ac : CookieAc} {s : ℕ} (h : ac.matched s = true) :
    (cookieAcFinish ac).matched s = true ∧ (cookieAcFinish ac).nnodes = ac.nnodes := by
  have hroot : ∀ (cs : List UInt8) (p : CookieAc × List ℕ), p.1.matched s = true →
      (cs.foldl rootStep p).1.matched s = true ∧
        (cs.foldl rootStep p).1.nnodes = p.1.nnodes := by
    intro cs
    induction cs with
    | nil => exact fun p hp => ⟨hp, rfl⟩
    | cons c cs ih =>
      intro p hp
      have hstep : (rootStep p c).1.matched = p.1.matched ∧
          (rootStep p c).1.nnodes = p.1.nnodes := by
        unfold rootStep
        split
        · exact ⟨rfl, rfl⟩
        · exact ⟨rfl, rfl⟩
      rw [List.foldl_cons, ← hstep.2]
      exact ih _ (by rw [hstep.1]; exact hp)
  have hchild : ∀ (x : ℕ) (cs : List UInt8) (p : CookieAc × List ℕ), p.1.matched s = true →
      (cs.foldl (childStep x) p).1.matched s = true ∧
        (cs.foldl (childStep x) p).1.nnodes = p.1.nnodes := by
    intro x cs
    induction cs with
    | nil => exact fun p hp => ⟨hp, rfl⟩
    | cons c cs ih =>
      intro p hp
      have hstep : (childStep x p c).1.matched s = true ∧
          (childStep x p c).1.nnodes = p.1.nnodes := by
        unfold childStep
        split
        · exact ⟨hp, rfl⟩
        · dsimp only
          split
          · refine ⟨?_, rfl⟩
            show (if _ then true else p.1.matched s) = true
            rw [hp, ite_self]
          · exact ⟨hp, rfl⟩
      rw [List.foldl_cons, ← hstep.2]
      exact ih _ hstep.1
  have hloop : ∀ (fuel : ℕ) (ac : CookieAc) (queue : List ℕ), ac.matched s = true →
      (finishLoop fuel (ac, queue)).matched s = true ∧
        (finishLoop fuel (ac, queue)).nnodes = ac.nnodes := by
    intro fuel
    induction fuel with
    | zero => exact fun ac queue hac => ⟨hac, rfl⟩
    | succ fuel ih =>
      intro ac queue hac
      cases queue with
      | nil => exact ⟨hac, rfl⟩
      | cons x queue =>
        rw [finishLoop]
        obtain ⟨hm, hn⟩ := hchild x allBytes (ac, queue) hac
        generalize allBytes.foldl (childStep x) (ac, queue) = p at hm hn ⊢
        obtain ⟨ac', queue'⟩ := p
        obtain ⟨hm', hn'⟩ := ih ac' queue' hm
        exact ⟨hm', hn'.trans hn⟩
  rw [cookieAcFinish]
  split
  · exact ⟨h, rfl⟩
  · obtain ⟨hm, hn⟩ := hroot allBytes (ac, []) h
    generalize allBytes.foldl rootStep (ac, []) = p at hm hn ⊢
    obtain ⟨ac', queue'⟩ := p
    obtain ⟨hm', hn'⟩ := hloop ac.nnodes ac' queue' hm
    exact ⟨hm', hn'.trans hn⟩

/-- **The automaton finds a word in a line** that is not empty. -/
theorem cookieAcMatch_iff {ac : CookieAc} {words : List Bytes} {path : ℕ → Bytes}
    (htrie : Trie ac words path) {cookies : List Bytes} (hnul : ∀ ck ∈ cookies, (0 : UInt8) ∉ ck) :
    cookieAcMatch cookies (cookieAcFinish ac) = true ↔
      ∃ w ∈ words, ∃ ck ∈ cookies, ck ≠ [] ∧ w <:+: ck := by
  have hscan : ∀ ck ∈ cookies, ck ≠ [] →
      (cookieAcScanOne (cookieAcFinish ac) ck = true ↔ ∃ w ∈ words, w <:+: ck) := by
    intro ck hck hne
    by_cases hwords : [] ∈ words
    · have hflag : ac.matched 0 = true := by
        rw [htrie.matched, htrie.root]
        exact ⟨htrie.pos, hwords⟩
      obtain ⟨hm, hn⟩ := finish_matched hflag
      rw [cookieAcScanOne, if_neg, if_pos hm]
      · exact ⟨fun _ => ⟨[], hwords, List.nil_infix⟩, fun _ => rfl⟩
      · rintro (h0 | hnil)
        · rw [hn] at h0
          exact Nat.pos_iff_ne_zero.1 htrie.pos h0
        · exact hne hnil
    · exact cookieAcScanOne_iff (cookieAcFinish_automaton htrie hwords) hwords (hnul ck hck)
  have hn : (cookieAcFinish ac).nnodes ≠ 0 := by
    by_cases hwords : [] ∈ words
    · have hflag : ac.matched 0 = true := by
        rw [htrie.matched, htrie.root]
        exact ⟨htrie.pos, hwords⟩
      rw [(finish_matched hflag).2]
      exact Nat.pos_iff_ne_zero.1 htrie.pos
    · exact Nat.pos_iff_ne_zero.1 (cookieAcFinish_automaton htrie hwords).pos
  rw [cookieAcMatch, if_neg hn, List.any_eq_true]
  constructor
  · rintro ⟨ck, hck, hfound⟩
    split at hfound
    · cases hfound
    · rename_i hne
      obtain ⟨w, hw, hinfix⟩ := (hscan ck hck hne).1 hfound
      exact ⟨w, hw, ck, hck, hne, hinfix⟩
  · rintro ⟨w, hw, ck, hck, hne, hinfix⟩
    refine ⟨ck, hck, ?_⟩
    rw [if_neg hne]
    exact (hscan ck hck hne).2 ⟨w, hw, hinfix⟩

/-! ## The presets -/

/-- `ngx_http_cache_turbo_preset_t`.  A URI prefix is not empty: the walk looks at its last
byte. -/
structure Preset where
  bit : UInt64
  cookies : List Bytes
  uris : List Bytes
  args : List Bytes
  cookiePreds : List CookiePred
  headers : List Bytes
  uris_ne : ∀ u ∈ uris, u ≠ []

/-- The table up to its end mark. -/
def presetRows (table : List Preset) : List Preset := table.takeWhile fun ps => ps.bit != 0

/-- The rows that a location has enabled. -/
def enabledPresets (table : List Preset) (mask : UInt64) : List Preset :=
  (presetRows table).filter fun ps => mask &&& ps.bit != 0

/-- `NGX_HTTP_CACHE_TURBO_HAS_BACKEND`. -/
def hasBackend (mask : UInt64) : Bool := mask &&& ~~~(0x8000000000000000 : UInt64) != 0

/-- `NGX_HTTP_CACHE_TURBO_BACKEND_SERVARR`. -/
def backendServarr : UInt64 := 0x800000000

/-- What is compiled for a location. -/
structure AutoConf where
  uriRoot : Option UriNode
  argRules : List ArgRule
  cookieAc : CookieAc
  cookiePreds : List CookiePred
  skipHeaders : List Bytes

/-- What `ngx_http_cache_turbo_compile_auto_presets` does for one enabled preset. -/
def compilePreset (conf : AutoConf) (ps : Preset) : Option AutoConf :=
  (ps.cookies.foldlM cookieAcInsert conf.cookieAc).map fun ac =>
    { uriRoot := conf.uriRoot.map fun root => ps.uris.foldl uriTrieAdd root
      argRules := conf.argRules ++ ps.args.map argRule
      cookieAc := ac
      cookiePreds := conf.cookiePreds ++ ps.cookiePreds
      skipHeaders := conf.skipHeaders ++ ps.headers }

/-- How many nodes the cookie substrings take at most, beside the root. -/
def cookieNodes (presets : List Preset) : ℕ :=
  (presets.flatMap Preset.cookies).flatten.length

/-- `ngx_http_cache_turbo_compile_auto_presets`. -/
def compileAutoPresets (table : List Preset) (mask : UInt64) : Option AutoConf :=
  if hasBackend mask = false then some ⟨none, [], cookieAcPrepare 0, [], []⟩
  else
    ((enabledPresets table mask).foldlM compilePreset
      ⟨some .blank, [], cookieAcPrepare (1 + cookieNodes (enabledPresets table mask)), [], []⟩).map
        fun conf => { conf with cookieAc := cookieAcFinish conf.cookieAc }

/-- A mount prefix that `ngx_http_cache_turbo_backend_prefix` accepts. -/
structure MountPrefix where
  bytes : Bytes
  begins : bytes.head? = some 47
  ends : bytes.getLast? = some 47
  long : 2 ≤ bytes.length

/-- What the classifier reads of a request. -/
structure SkipRequest where
  uri : Bytes
  args : Bytes
  cookies : List Bytes
  headers : List Bytes
  deriving DecidableEq, Repr

/-- The URI below the mount prefix. -/
def rebaseUri (mount : Option MountPrefix) (uri : Bytes) : Bytes :=
  match mount with
  | none => uri
  | some pfx =>
      if pfx.bytes.length ≤ uri.length ∧ strncmpEq (uri.take pfx.bytes.length) pfx.bytes = true then
        uri.drop (pfx.bytes.length - 1)
      else uri

/-- `ngx_http_cache_turbo_uri_prefix_icase`. -/
def uriPrefixIcase (uri pfx : Bytes) : Bool :=
  if pfx = [] ∨ uri.length < pfx.length ∨ eqFold (uri.take pfx.length) pfx = false then false
  else
    match uri.drop pfx.length with
    | [] => true
    | next :: _ => if pfx.getLast? = some 47 then true else atBoundary next

/-- `ngx_http_cache_turbo_servarr_uri_skip`. -/
def servarrUriSkip (table : List Preset) (mask : UInt64) (mount : Option MountPrefix)
    (uri : Bytes) : Bool :=
  if mask &&& backendServarr == 0 then false
  else
    let uri :=
      match mount with
      | none => uri
      | some pfx =>
          if uriPrefixIcase uri pfx.bytes then uri.drop (pfx.bytes.length - 1) else uri
    match (presetRows table).find? fun ps => ps.bit == backendServarr with
    | none => false
    | some ps => ps.uris.any fun u => uriPrefixIcase uri u

/-- `ngx_http_cache_turbo_auto_header_present`. -/
def autoHeaderPresent (headers names : List Bytes) : Bool :=
  headers.any fun h => names.any fun nm => eqFold h nm

/-- **`ngx_http_cache_turbo_auto_skip` in production**, on the compiled structures. -/
def autoSkip (table : List Preset) (mask : UInt64) (mount : Option MountPrefix) (conf : AutoConf)
    (r : SkipRequest) : Bool :=
  let ap := argparseBuild r.args
  let uri := rebaseUri mount r.uri
  if conf.uriRoot.any fun root => uriTrieMatch root uri then true
  else if r.args ≠ [] ∧ argRulesMatch ap conf.argRules = true then true
  else if cookieAcMatch r.cookies conf.cookieAc then true
  else if cookiePredIndexMatch r.cookies conf.cookiePreds then true
  else if autoHeaderPresent r.headers conf.skipHeaders then true
  else servarrUriSkip table mask mount r.uri

/-- The walk of the reference over one preset. -/
def presetSkips (ap : ArgParse) (uri : Bytes) (seen : List UInt8) (r : SkipRequest) (ps : Preset) :
    Bool :=
  if ps.uris.any fun u => uriPrefix uri u then true
  else if r.args ≠ [] ∧
      (ps.args.any fun l => argMatch ap (argRule l).name (argRule l).value) = true then true
  else if cookieHas r.cookies ps.cookies seen then true
  else cookiePred r.cookies ps.cookiePreds

/-- **The reference form of `ngx_http_cache_turbo_auto_skip`.** -/
def autoSkipReference (table : List Preset) (mask : UInt64) (mount : Option MountPrefix)
    (r : SkipRequest) : Bool :=
  let ap := argparseBuild r.args
  match cookieBytesetBuild r.cookies with
  | none => true
  | some seen =>
      let uri := rebaseUri mount r.uri
      if (enabledPresets table mask).any fun ps => presetSkips ap uri seen r ps then true
      else servarrUriSkip table mask mount r.uri

/-! ## What is compiled -/

/-- The substrings of some presets are inserted, while there is room for them. -/
theorem insertAll_spec {words : List Bytes} :
    ∀ {ws : List Bytes} {ac : CookieAc} {path : ℕ → Bytes}, Trie ac words path →
      ac.nnodes + ws.flatten.length ≤ ac.cap →
      ∃ ac' path' words', ws.foldlM cookieAcInsert ac = some ac' ∧ Trie ac' words' path' ∧
        (∀ w, w ∈ words' ↔ w ∈ words ∨ w ∈ ws) ∧ ac'.cap = ac.cap ∧
        ac'.nnodes ≤ ac.nnodes + ws.flatten.length := by
  intro ws
  induction ws generalizing words with
  | nil =>
    intro ac path h _
    exact ⟨ac, path, words, rfl, h, fun w => by simp, rfl, Nat.le_refl _⟩
  | cons w ws ih =>
    intro ac path h hroom
    rw [List.flatten_cons, List.length_append] at hroom ⊢
    obtain ⟨ac₁, path₁, hins, htrie, hcap, hn⟩ := @cookieAcInsert_spec _ _ _ h w (by omega)
    obtain ⟨ac₂, path₂, words₂, hrest, htrie₂, hwords₂, hcap₂, hn₂⟩ := ih htrie (by omega)
    refine ⟨ac₂, path₂, words₂, ?_, htrie₂, fun v => ?_, hcap₂.trans hcap, by omega⟩
    · rw [List.foldlM_cons, hins]
      exact hrest
    · rw [hwords₂, List.mem_cons, List.mem_cons]
      tauto

/-- **Compilation succeeds**, and what it builds is made of the enabled presets' data. -/
theorem compileAutoPresets_spec (table : List Preset) {mask : UInt64}
    (hbackend : hasBackend mask = true) :
    ∃ conf ac path words, compileAutoPresets table mask = some conf ∧
      conf.uriRoot = some
        (((enabledPresets table mask).flatMap Preset.uris).foldl uriTrieAdd .blank) ∧
      conf.argRules = ((enabledPresets table mask).flatMap Preset.args).map argRule ∧
      conf.cookieAc = cookieAcFinish ac ∧ Trie ac words path ∧
      (∀ w, w ∈ words ↔ w ∈ (enabledPresets table mask).flatMap Preset.cookies) ∧
      conf.cookiePreds = (enabledPresets table mask).flatMap Preset.cookiePreds ∧
      conf.skipHeaders = (enabledPresets table mask).flatMap Preset.headers := by
  have hgeneral : ∀ (presets : List Preset) (conf : AutoConf) (root : UriNode)
      (path : ℕ → Bytes) (words : List Bytes), conf.uriRoot = some root →
      Trie conf.cookieAc words path →
      conf.cookieAc.nnodes + cookieNodes presets ≤ conf.cookieAc.cap →
      ∃ conf' path' words', presets.foldlM compilePreset conf = some conf' ∧
        conf'.uriRoot = some ((presets.flatMap Preset.uris).foldl uriTrieAdd root) ∧
        conf'.argRules = conf.argRules ++ (presets.flatMap Preset.args).map argRule ∧
        Trie conf'.cookieAc words' path' ∧
        (∀ w, w ∈ words' ↔ w ∈ words ∨ w ∈ presets.flatMap Preset.cookies) ∧
        conf'.cookiePreds = conf.cookiePreds ++ presets.flatMap Preset.cookiePreds ∧
        conf'.skipHeaders = conf.skipHeaders ++ presets.flatMap Preset.headers := by
    intro presets
    induction presets with
    | nil =>
      intro conf root path words hroot htrie _
      exact ⟨conf, path, words, rfl, hroot, by simp, htrie, fun w => by simp, by simp, by simp⟩
    | cons ps presets ih =>
      intro conf root path words hroot htrie hroom
      have hsum : cookieNodes (ps :: presets) =
          ps.cookies.flatten.length + cookieNodes presets := by
        rw [cookieNodes, List.flatMap_cons, List.flatten_append, List.length_append]
        rfl
      rw [hsum] at hroom
      obtain ⟨ac₁, path₁, words₁, hins, htrie₁, hwords₁, hcap₁, hn₁⟩ :=
        @insertAll_spec _ ps.cookies _ _ htrie (by omega)
      have hone : compilePreset conf ps = some
          { uriRoot := some (ps.uris.foldl uriTrieAdd root)
            argRules := conf.argRules ++ ps.args.map argRule
            cookieAc := ac₁
            cookiePreds := conf.cookiePreds ++ ps.cookiePreds
            skipHeaders := conf.skipHeaders ++ ps.headers } := by
        rw [compilePreset, hins, hroot]
        rfl
      obtain ⟨conf', path', words', hfold, huris, hargs, htrie', hwords', hpreds, hheaders⟩ :=
        ih ⟨some (ps.uris.foldl uriTrieAdd root), conf.argRules ++ ps.args.map argRule, ac₁,
          conf.cookiePreds ++ ps.cookiePreds, conf.skipHeaders ++ ps.headers⟩
          (ps.uris.foldl uriTrieAdd root) path₁ words₁ rfl htrie₁ (by
            show ac₁.nnodes + cookieNodes presets ≤ ac₁.cap
            omega)
      refine ⟨conf', path', words', ?_, ?_, ?_, htrie', fun w => ?_, ?_, ?_⟩
      · rw [List.foldlM_cons, hone]
        exact hfold
      · rw [huris, List.flatMap_cons, List.foldl_append]
      · rw [hargs, List.flatMap_cons, List.map_append, List.append_assoc]
      · rw [hwords', hwords₁, List.flatMap_cons, List.mem_append]
        tauto
      · rw [hpreds, List.flatMap_cons, List.append_assoc]
      · rw [hheaders, List.flatMap_cons, List.append_assoc]
  have hne : 1 + cookieNodes (enabledPresets table mask) ≠ 0 := by omega
  obtain ⟨conf, path, words, hfold, huris, hargs, htrie, hwords, hpreds, hheaders⟩ :=
    hgeneral (enabledPresets table mask)
      ⟨some .blank, [], cookieAcPrepare (1 + cookieNodes (enabledPresets table mask)), [], []⟩
      .blank (fun _ => []) [] rfl (trie_prepare hne) (by
        show (if _ then 0 else 1) + _ ≤ 1 + _
        rw [if_neg hne])
  refine ⟨{ conf with cookieAc := cookieAcFinish conf.cookieAc }, conf.cookieAc, path, words, ?_,
    huris, by simpa using hargs, rfl, htrie, fun w => by simpa using hwords w,
    by simpa using hpreds, by simpa using hheaders⟩
  rw [compileAutoPresets, if_neg (by rw [hbackend]; nofun), hfold]
  rfl

/-! ## The two classifiers -/

/-- A URI prefix, an argument or a cookie substring of an enabled preset bypasses the request,
or the rule of its own for the servarr preset does. -/
def OtherTier (table : List Preset) (mask : UInt64) (mount : Option MountPrefix)
    (r : SkipRequest) : Prop :=
  (∃ u ∈ (enabledPresets table mask).flatMap Preset.uris,
      uriPrefix (rebaseUri mount r.uri) u = true) ∨
    (r.args ≠ [] ∧ ∃ l ∈ (enabledPresets table mask).flatMap Preset.args,
      argMatch (argparseBuild r.args) (argRule l).name (argRule l).value = true) ∨
    (∃ w ∈ (enabledPresets table mask).flatMap Preset.cookies, ∃ ck ∈ r.cookies,
      ck ≠ [] ∧ w <:+: ck) ∨
    servarrUriSkip table mask mount r.uri = true

/-- A request without NUL in its URI and its Cookie lines. -/
def NoNul (r : SkipRequest) : Prop :=
  (0 : UInt8) ∉ r.uri ∧ ∀ ck ∈ r.cookies, (0 : UInt8) ∉ ck

theorem NoNul.rebase {r : SkipRequest} (h : NoNul r) (mount : Option MountPrefix) :
    (0 : UInt8) ∉ rebaseUri mount r.uri := by
  unfold rebaseUri
  split
  · exact h.1
  · split
    · exact fun hmem => h.1 (List.mem_of_mem_drop hmem)
    · exact h.1

/-- **When the production classifier bypasses.** -/
theorem autoSkip_iff {table : List Preset} {mask : UInt64} (mount : Option MountPrefix)
    {r : SkipRequest} (hbackend : hasBackend mask = true)
    (hheaders : ∀ ps ∈ enabledPresets table mask, ps.headers = []) (hnul : NoNul r)
    {conf : AutoConf} (hconf : compileAutoPresets table mask = some conf) :
    autoSkip table mask mount conf r = true ↔ OtherTier table mask mount r ∨
      ∃ p ∈ firsts (cookiePairs r.cookies),
        Objects ((enabledPresets table mask).flatMap Preset.cookiePreds) p := by
  obtain ⟨conf', ac, path, words, hcompiled, huris, hargs, hac, htrie, hwords, hpreds, hnames⟩ :=
    compileAutoPresets_spec table hbackend
  obtain rfl : conf' = conf := Option.some.inj (hcompiled.symm.trans hconf)
  have hne : ∀ u ∈ (enabledPresets table mask).flatMap Preset.uris, u ≠ [] := fun u hu => by
    obtain ⟨ps, -, hmem⟩ := List.mem_flatMap.1 hu
    exact ps.uris_ne u hmem
  have hnone : autoHeaderPresent r.headers conf'.skipHeaders = false := by
    have hempty : (enabledPresets table mask).flatMap Preset.headers = [] :=
      List.flatMap_eq_nil_iff.2 hheaders
    rw [hnames, hempty, autoHeaderPresent]
    exact List.any_eq_false.2 fun _ _ => by nofun
  have htrieTier : (conf'.uriRoot.any fun root => uriTrieMatch root (rebaseUri mount r.uri)) = true ↔
      ∃ u ∈ (enabledPresets table mask).flatMap Preset.uris,
        uriPrefix (rebaseUri mount r.uri) u = true := by
    rw [huris]
    exact uriTrieMatch_foldl hne (hnul.rebase mount)
  have hargTier : argRulesMatch (argparseBuild r.args) conf'.argRules = true ↔
      ∃ l ∈ (enabledPresets table mask).flatMap Preset.args,
        argMatch (argparseBuild r.args) (argRule l).name (argRule l).value = true := by
    rw [hargs]
    exact argRulesMatch_map _ _
  have hcookieTier : cookieAcMatch r.cookies conf'.cookieAc = true ↔
      ∃ w ∈ (enabledPresets table mask).flatMap Preset.cookies, ∃ ck ∈ r.cookies,
        ck ≠ [] ∧ w <:+: ck := by
    rw [hac, cookieAcMatch_iff htrie hnul.2]
    exact exists_congr fun w => and_congr_left fun _ => hwords w
  have hpredTier := cookiePredIndexMatch_iff r.cookies conf'.cookiePreds
  rw [hpreds] at hpredTier
  unfold autoSkip OtherTier
  dsimp only
  rw [← htrieTier, ← hargTier, ← hcookieTier, ← hpredTier, hnone, hpreds]
  by_cases h1 : (conf'.uriRoot.any fun root => uriTrieMatch root (rebaseUri mount r.uri)) = true
  · simp only [h1, if_true, true_or]
  rw [if_neg h1]
  by_cases h2 : r.args ≠ [] ∧ argRulesMatch (argparseBuild r.args) conf'.argRules = true
  · rw [if_pos h2]
    exact ⟨fun _ => Or.inl (Or.inr (Or.inl h2)), fun _ => rfl⟩
  rw [if_neg h2]
  by_cases h3 : cookieAcMatch r.cookies conf'.cookieAc = true
  · rw [if_pos h3]
    exact ⟨fun _ => Or.inl (Or.inr (Or.inr (Or.inl h3))), fun _ => rfl⟩
  rw [if_neg h3]
  by_cases h4 : cookiePredIndexMatch r.cookies
      ((enabledPresets table mask).flatMap Preset.cookiePreds) = true
  · rw [if_pos h4]
    exact ⟨fun _ => Or.inr h4, fun _ => rfl⟩
  rw [if_neg h4, if_neg (by nofun)]
  constructor
  · exact fun h => Or.inl (Or.inr (Or.inr (Or.inr h)))
  · rintro ((h | h | h | h) | h)
    · exact absurd h h1
    · exact absurd h h2
    · exact absurd h h3
    · exact h
    · exact absurd h h4

/-- **When the reference bypasses**: in the same tiers, but for any pair of the request, and for
an empty substring of a preset even without Cookie lines. -/
theorem autoSkipReference_iff {table : List Preset} {mask : UInt64} (mount : Option MountPrefix)
    {r : SkipRequest} (hnul : NoNul r)
    (hbudget : r.cookies.flatten.length ≤ cookieBytesMax) :
    autoSkipReference table mask mount r = true ↔ OtherTier table mask mount r ∨
      [] ∈ (enabledPresets table mask).flatMap Preset.cookies ∨
      ∃ p ∈ cookiePairs r.cookies,
        Objects ((enabledPresets table mask).flatMap Preset.cookiePreds) p := by
  have hset : cookieBytesetBuild r.cookies = some r.cookies.flatten :=
    if_neg (Nat.not_lt.2 hbudget)
  have hpreset : ∀ ps : Preset, presetSkips (argparseBuild r.args) (rebaseUri mount r.uri)
      r.cookies.flatten r ps = true ↔
        (∃ u ∈ ps.uris, uriPrefix (rebaseUri mount r.uri) u = true) ∨
        (r.args ≠ [] ∧ ∃ l ∈ ps.args,
          argMatch (argparseBuild r.args) (argRule l).name (argRule l).value = true) ∨
        ([] ∈ ps.cookies ∨ ∃ w ∈ ps.cookies, ∃ ck ∈ r.cookies, ck ≠ [] ∧ w <:+: ck) ∨
        ∃ p ∈ cookiePairs r.cookies, Objects ps.cookiePreds p := fun ps => by
    have huris : (ps.uris.any fun u => uriPrefix (rebaseUri mount r.uri) u) = true ↔
        ∃ u ∈ ps.uris, uriPrefix (rebaseUri mount r.uri) u = true := List.any_eq_true
    have hargs : (ps.args.any fun l =>
          argMatch (argparseBuild r.args) (argRule l).name (argRule l).value) = true ↔
        ∃ l ∈ ps.args, argMatch (argparseBuild r.args) (argRule l).name (argRule l).value = true :=
      List.any_eq_true
    unfold presetSkips
    rw [← cookieHas_iff hnul.2, ← cookiePred_iff, ← huris, ← hargs]
    split
    · rename_i h
      exact ⟨fun _ => Or.inl h, fun _ => rfl⟩
    rename_i h1
    split
    · rename_i h
      exact ⟨fun _ => Or.inr (Or.inl h), fun _ => rfl⟩
    rename_i h2
    split
    · rename_i h
      exact ⟨fun _ => Or.inr (Or.inr (Or.inl h)), fun _ => rfl⟩
    rename_i h3
    constructor
    · exact fun h => Or.inr (Or.inr (Or.inr h))
    · rintro (h | h | h | h)
      · exact absurd h h1
      · exact absurd h h2
      · exact absurd h h3
      · exact h
  have hany : ((enabledPresets table mask).any fun ps => presetSkips (argparseBuild r.args)
      (rebaseUri mount r.uri) r.cookies.flatten r ps) = true ↔
        ∃ ps ∈ enabledPresets table mask,
          (∃ u ∈ ps.uris, uriPrefix (rebaseUri mount r.uri) u = true) ∨
          (r.args ≠ [] ∧ ∃ l ∈ ps.args,
            argMatch (argparseBuild r.args) (argRule l).name (argRule l).value = true) ∨
          ([] ∈ ps.cookies ∨ ∃ w ∈ ps.cookies, ∃ ck ∈ r.cookies, ck ≠ [] ∧ w <:+: ck) ∨
          ∃ p ∈ cookiePairs r.cookies, Objects ps.cookiePreds p := by
    rw [List.any_eq_true]
    exact exists_congr fun ps => and_congr_right fun _ => hpreset ps
  unfold autoSkipReference
  rw [hset]
  dsimp only
  have hsplit : ∀ b c : Bool, (if b then true else c) = true ↔ b = true ∨ c = true := by decide
  rw [hsplit, hany]
  unfold OtherTier Objects
  constructor
  · rintro (⟨ps, hps, h⟩ | hservarr)
    · rcases h with ⟨u, hu, h⟩ | ⟨hargs, l, hl, h⟩ | (hnil | ⟨w, hw, h⟩) | ⟨p, hp, pr, hpr, h⟩
      · exact Or.inl (Or.inl ⟨u, List.mem_flatMap.2 ⟨ps, hps, hu⟩, h⟩)
      · exact Or.inl (Or.inr (Or.inl ⟨hargs, l, List.mem_flatMap.2 ⟨ps, hps, hl⟩, h⟩))
      · exact Or.inr (Or.inl (List.mem_flatMap.2 ⟨ps, hps, hnil⟩))
      · exact Or.inl (Or.inr (Or.inr (Or.inl ⟨w, List.mem_flatMap.2 ⟨ps, hps, hw⟩, h⟩)))
      · exact Or.inr (Or.inr ⟨p, hp, pr, List.mem_flatMap.2 ⟨ps, hps, hpr⟩, h⟩)
    · exact Or.inl (Or.inr (Or.inr (Or.inr hservarr)))
  · rintro ((⟨u, hu, h⟩ | ⟨hargs, l, hl, h⟩ | ⟨w, hw, h⟩ | hservarr) | hnil | ⟨p, hp, pr, hpr, h⟩)
    · obtain ⟨ps, hps, hu⟩ := List.mem_flatMap.1 hu
      exact Or.inl ⟨ps, hps, Or.inl ⟨u, hu, h⟩⟩
    · obtain ⟨ps, hps, hl⟩ := List.mem_flatMap.1 hl
      exact Or.inl ⟨ps, hps, Or.inr (Or.inl ⟨hargs, l, hl, h⟩)⟩
    · obtain ⟨ps, hps, hw⟩ := List.mem_flatMap.1 hw
      exact Or.inl ⟨ps, hps, Or.inr (Or.inr (Or.inl (Or.inr ⟨w, hw, h⟩)))⟩
    · exact Or.inr hservarr
    · obtain ⟨ps, hps, hnil⟩ := List.mem_flatMap.1 hnil
      exact Or.inl ⟨ps, hps, Or.inr (Or.inr (Or.inl (Or.inl hnil)))⟩
    · obtain ⟨ps, hps, hpr⟩ := List.mem_flatMap.1 hpr
      exact Or.inl ⟨ps, hps, Or.inr (Or.inr (Or.inr ⟨p, hp, pr, hpr, h⟩))⟩

/-- **The index decides**: another tier bypasses the request, or a pair that is the first of its
name objects, or no pair does and no enabled preset has an empty cookie substring. -/
def IndexDecides (table : List Preset) (mask : UInt64) (mount : Option MountPrefix)
    (r : SkipRequest) : Prop :=
  OtherTier table mask mount r ∨
    (∃ p ∈ firsts (cookiePairs r.cookies),
      Objects ((enabledPresets table mask).flatMap Preset.cookiePreds) p) ∨
    ([] ∉ (enabledPresets table mask).flatMap Preset.cookies ∧
      ∀ p ∈ cookiePairs r.cookies,
        ¬ Objects ((enabledPresets table mask).flatMap Preset.cookiePreds) p)

/-- **Production and reference agree exactly where the index decides.**  Compilation succeeds
for every table; for every request without NUL and within the cookie budget, in a location with
a preset and without a header tier, the two verdicts are the same if and only if no pair that
repeats a name, and no empty substring, is all that speaks against caching. -/
theorem auto_skip_agrees_iff (table : List Preset) (mask : UInt64) (mount : Option MountPrefix)
    (r : SkipRequest) (hbackend : hasBackend mask = true)
    (hheaders : ∀ ps ∈ enabledPresets table mask, ps.headers = []) (hnul : NoNul r)
    (hbudget : r.cookies.flatten.length ≤ cookieBytesMax) :
    ∃ conf, compileAutoPresets table mask = some conf ∧
      (autoSkip table mask mount conf r = autoSkipReference table mask mount r ↔
        IndexDecides table mask mount r) := by
  obtain ⟨conf, -, -, -, hconf, -⟩ := compileAutoPresets_spec table hbackend
  refine ⟨conf, hconf, ?_⟩
  rw [Bool.eq_iff_iff, autoSkip_iff mount hbackend hheaders hnul hconf,
    autoSkipReference_iff mount hnul hbudget, IndexDecides]
  have hfirst : (∃ p ∈ firsts (cookiePairs r.cookies),
      Objects ((enabledPresets table mask).flatMap Preset.cookiePreds) p) →
        ∃ p ∈ cookiePairs r.cookies,
          Objects ((enabledPresets table mask).flatMap Preset.cookiePreds) p := by
    rintro ⟨p, hp, h⟩
    exact ⟨p, mem_of_mem_firsts hp, h⟩
  have hall : (∀ p ∈ cookiePairs r.cookies,
      ¬ Objects ((enabledPresets table mask).flatMap Preset.cookiePreds) p) ↔
        ¬ ∃ p ∈ cookiePairs r.cookies,
          Objects ((enabledPresets table mask).flatMap Preset.cookiePreds) p := by
    push Not
    exact Iff.rfl
  rw [hall]
  generalize (∃ p ∈ firsts (cookiePairs r.cookies), _) = first at hfirst ⊢
  generalize (∃ p ∈ cookiePairs r.cookies, _) = any at hfirst ⊢
  generalize OtherTier table mask mount r = other
  generalize ([] ∈ (enabledPresets table mask).flatMap Preset.cookies) = empty
  constructor
  · intro hiff
    by_cases hother : other
    · exact Or.inl hother
    by_cases hf : first
    · exact Or.inr (Or.inl hf)
    · exact Or.inr (Or.inr ⟨fun he => (hiff.2 (Or.inr (Or.inl he))).elim hother hf,
        fun ha => (hiff.2 (Or.inr (Or.inr ha))).elim hother hf⟩)
  · rintro (hother | hf | ⟨hempty, hany⟩)
    · exact ⟨fun _ => Or.inl hother, fun _ => Or.inl hother⟩
    · exact ⟨fun _ => Or.inr (Or.inr (hfirst hf)), fun _ => Or.inr hf⟩
    · exact ⟨fun h => h.imp_right fun hf => Or.inr (hfirst hf),
        fun h => h.imp_right fun h => h.elim (fun he => absurd he hempty) fun ha => absurd ha hany⟩

/-- The phpBB preset's predicate: a cookie named `…_u` is a member's unless its value is `1`. -/
def phpbbRow : Preset :=
  ⟨0x20, [], [], [], [⟨[95, 117], .ne, some [49]⟩], [], nofun⟩

/-- A guest of one board who is a member of another: `a_u=1; b_u=42`. -/
def guestAndMember : SkipRequest :=
  ⟨[47], [], [[97, 95, 117, 61, 49, 59, 32, 98, 95, 117, 61, 52, 50]], []⟩

/-- The member's pair is the first of its name: both classifiers bypass. -/
theorem auto_skip_agrees_phpbb :
    ∃ conf, compileAutoPresets [phpbbRow] 0x20 = some conf ∧
      autoSkip [phpbbRow] 0x20 none conf guestAndMember =
        autoSkipReference [phpbbRow] 0x20 none guestAndMember := by
  obtain ⟨conf, hconf, hiff⟩ := auto_skip_agrees_iff [phpbbRow] 0x20 none guestAndMember
    (by decide) (fun ps hps => by rw [List.mem_singleton.1 (List.mem_of_mem_filter hps)]; rfl)
    ⟨by decide, by decide⟩ (by decide)
  refine ⟨conf, hconf, hiff.2 (Or.inr (Or.inl ⟨⟨[98, 95, 117], [52, 50], false⟩, ?_, ?_⟩))⟩
  · decide
  · decide

/-- The same name twice, a guest's value first: `a_u=1; a_u=42`. -/
def repeatedName : SkipRequest :=
  ⟨[47], [], [[97, 95, 117, 61, 49, 59, 32, 97, 95, 117, 61, 52, 50]], []⟩

/-- **A member's cookie behind a guest's of the same name**: the reference bypasses, production
does not. -/
theorem auto_skip_misses_repeated :
    ∃ conf, compileAutoPresets [phpbbRow] 0x20 = some conf ∧
      autoSkipReference [phpbbRow] 0x20 none repeatedName = true ∧
      autoSkip [phpbbRow] 0x20 none conf repeatedName = false := by
  have hheaders : ∀ ps ∈ enabledPresets [phpbbRow] 0x20, ps.headers = [] := fun ps hps => by
    rw [List.mem_singleton.1 (List.mem_of_mem_filter hps)]
    rfl
  refine ⟨_, rfl, by decide, Bool.eq_false_iff.2 fun h => ?_⟩
  rcases (autoSkip_iff none (by decide) hheaders ⟨by decide, by decide⟩ rfl).1 h with
    hother | ⟨p, hp, hobjects⟩
  · rcases hother with ⟨u, hu, -⟩ | ⟨hargs, -⟩ | ⟨w, hw, -⟩ | hservarr
    · exact absurd hu (List.not_mem_nil : u ∉ ([] : List Bytes))
    · exact hargs rfl
    · exact absurd hw (List.not_mem_nil : w ∉ ([] : List Bytes))
    · exact absurd hservarr (by decide)
  · have honly : firsts (cookiePairs repeatedName.cookies) = [⟨[97, 95, 117], [49], false⟩] := by
      decide
    rw [honly] at hp
    rw [List.mem_singleton.1 hp] at hobjects
    exact absurd hobjects (by decide)

end Match
end CacheTurbo
