/-
# The encoding class of a request

`ngx_http_cache_turbo_ae_class` keys a request under one coding, and
`ngx_http_cache_turbo_ae_class_accepted` says whether a stored encoded body may be sent to it
(`ngx_http_cache_turbo_vary.c`).  Each has a walk of its own over the `Accept-Encoding` list, and
only the first one stops early.

What both read is in `Weighed`: an element has a coding name and parameters, and the first of them
that is a `q` decides.  `ae_class_highest` compares the walks.
-/

import CacheTurbo.Http.ServeSpec
import Mathlib.Data.List.TakeWhile

namespace CacheTurbo
namespace Http
namespace AeClass

open Bytes

/-! ## An element of the list -/

/-- The elements of a list. -/
def elements (v : Bytes) : List Bytes := v.splitOn 44

/-- The coding name of an element. -/
def codingName (e : Bytes) : Bytes := trim (e.splitOn 59).headI

/-- The parameters of an element. -/
def parameters (e : Bytes) : List Bytes := (e.splitOn 59).tail

/-- The value of a parameter that is a `q`. -/
def qParam (p : Bytes) : Option Bytes :=
  match p.dropWhile isBlank with
  | c :: 61 :: v => if c = 113 ∨ c = 81 then some (v.takeWhile (!isBlank ·)) else none
  | _ => none

/-- The values of the `q` of an element. -/
def qValues (e : Bytes) : List Bytes := (parameters e).filterMap qParam

/-- A value with a digit that is not zero. -/
def NonZero (v : Bytes) : Prop := ∃ d ∈ v, 49 ≤ d ∧ d ≤ 57

/-- **An element that does not refuse its coding**: it has no `q`, or its first one is not zero. -/
def Weighed (e : Bytes) : Prop := ∀ v, (qValues e).head? = some v → NonZero v

/-- Two elements that say the same. -/
structure Same (e e' : Bytes) : Prop where
  name : codingName e = codingName e'
  weight : (qValues e).head? = (qValues e').head?

/-! ## The scan of the parameters -/

theorem splitOn_cons (c b : UInt8) (s : Bytes) :
    (b :: s).splitOn c = if b = c then [] :: s.splitOn c else (s.splitOn c).modifyHead (b :: ·) := by
  rw [List.splitOn_eq_splitOnP, List.splitOn_eq_splitOnP, List.splitOnP_cons_eq_if_modifyHead]
  simp only [beq_iff_eq]

theorem splitOn_eq_cons (c : UInt8) (s : Bytes) :
    ∃ rest, s.splitOn c = s.takeWhile (· ≠ c) :: rest := by
  induction s with
  | nil => exact ⟨[], rfl⟩
  | cons b s ih =>
    obtain ⟨rest, hrest⟩ := ih
    rw [splitOn_cons]
    by_cases hb : b = c
    · exact ⟨s.splitOn c, by simp [hb]⟩
    · exact ⟨rest, by simp [hb, hrest]⟩

/-- What the first `q` says, if there is one. -/
def verdict : Option Bytes → Bool
  | none => true
  | some v => v.any fun d => 49 ≤ d && d ≤ 57

theorem qParam_blank {c : UInt8} (hc : isBlank c = true) (p : Bytes) :
    qParam (c :: p) = qParam p := by
  rw [qParam, List.dropWhile_cons, if_pos hc]
  rfl

theorem qParam_eq_none {c : UInt8} {p : Bytes} (hc : isBlank c = false)
    (h : ¬ ((c = 113 ∨ c = 81) ∧ p.head? = some 61)) : qParam (c :: p) = none := by
  rw [qParam, List.dropWhile_cons, if_neg (by simp [hc])]
  rcases p with _ | ⟨d, v⟩
  · rfl
  · by_cases hd : d = 61
    · subst hd
      exact if_neg fun hq => h ⟨hq, rfl⟩
    · split
      · rename_i heq
        exact absurd (List.cons.inj (List.cons.inj heq).2).1 hd
      · rfl

/-- **The scan finds the first `q`.** -/
theorem aeQScan_eq (s : Bytes) :
    aeQScan false s = verdict ((s.splitOn 59).tail.filterMap qParam).head? ∧
      aeQScan true s = verdict ((s.splitOn 59).filterMap qParam).head? := by
  induction s with
  | nil => exact ⟨rfl, rfl⟩
  | cons c s ih =>
    obtain ⟨hfalse, htrue⟩ := ih
    obtain ⟨more, hsplit⟩ := splitOn_eq_cons 59 s
    rw [splitOn_cons]
    by_cases hsemi : c = 59
    · subst hsemi
      have hblank : isBlank 59 = false := by decide
      have hnone : qParam [] = none := rfl
      rw [if_pos rfl, List.filterMap_cons, hnone]
      constructor
      · rw [aeQScan]
        simpa using htrue
      · rw [aeQScan]
        simpa [hblank] using htrue
    · rw [if_neg hsemi, hsplit, List.modifyHead_cons]
      rw [hsplit] at hfalse htrue
      constructor
      · have hnot : (c == 59) = false := beq_false_of_ne hsemi
        rw [aeQScan, hnot]
        simpa using hfalse
      · rw [aeQScan]
        cases hblank : isBlank c with
        | true =>
          rw [Bool.true_and, if_pos rfl, htrue, List.filterMap_cons, List.filterMap_cons,
            qParam_blank hblank]
        | false =>
          have hnext : (s.takeWhile (· ≠ 59)).head? = some 61 ↔ s.head? = some 61 := by
            cases s with
            | nil => rfl
            | cons d s =>
              by_cases hd : d = 59
              · simp [hd]
              · simp [hd]
          rw [Bool.true_and, if_neg (by decide)]
          by_cases hq : (c = 113 ∨ c = 81) ∧ s.head? = some 61
          · obtain ⟨hc, hhead⟩ := hq
            cases s with
            | nil => cases hhead
            | cons d v =>
              obtain rfl := Option.some.inj hhead
              have htest : (true && (c == 113 || c == 81) && (61 :: v).head? == some 61) = true := by
                simpa using hc
              have hparam : qParam (c :: (61 :: v).takeWhile (· ≠ 59)) =
                  some ((v.takeWhile (· ≠ 59)).takeWhile (!isBlank ·)) := by
                rw [List.takeWhile_cons, if_pos (by decide), qParam, List.dropWhile_cons,
                  if_neg (by simp [hblank])]
                exact if_pos hc
              rw [if_pos htest, List.filterMap_cons, hparam, List.takeWhile_takeWhile]
              simp only [List.head?_cons, verdict, List.tail_cons]
              congr 2
              funext d
              by_cases hd : d = 59
              · simp [hd]
              · simp [hd]
          · have htest : ¬ (true && (c == 113 || c == 81) && s.head? == some 61) = true := by
              simpa using hq
            rw [if_neg htest, beq_false_of_ne hsemi, hfalse, List.filterMap_cons,
              qParam_eq_none hblank (by rw [hnext]; exact hq)]
            rfl

/-! ## The two walks -/

theorem verdict_iff (o : Option Bytes) :
    verdict o = true ↔ ∀ v, o = some v → NonZero v := by
  cases o with
  | none => exact iff_of_true rfl nofun
  | some v =>
    simp only [verdict, List.any_eq_true, Bool.and_eq_true, decide_eq_true_eq, Option.some.injEq]
    constructor
    · rintro h _ rfl
      exact h
    · exact fun h => h v rfl

theorem aeElement_name (e : Bytes) : (aeElement e).1 = codingName e := by
  obtain ⟨rest, hrest⟩ := splitOn_eq_cons 59 e
  rw [codingName, hrest, List.headI_cons, aeElement]
  dsimp only
  congr 2
  funext c
  by_cases hc : c = 59
  · simp [hc]
  · simp [hc]

/-- **The parameters of an element** do not refuse its coding. -/
theorem aeElement_weighed (e : Bytes) : aeQOk (aeElement e).2 = true ↔ Weighed e := by
  have hdrop : ∀ s : Bytes,
      aeQScan false (s.dropWhile (· != 59)) = aeQScan false s := by
    intro s
    induction s with
    | nil => rfl
    | cons c s ih =>
      by_cases hc : c = 59
      · simp [hc]
      · have hbeq : (c == 59) = false := beq_false_of_ne hc
        rw [List.dropWhile_cons, if_pos (by simp [hc]), ih, aeQScan]
        simp [hbeq]
  rw [aeQOk, aeElement, hdrop, (aeQScan_eq e).1, verdict_iff]
  rfl

/-- An element that accepts the coding `name`. -/
def Accepts (name e : Bytes) : Prop := eqFold (codingName e) name = true ∧ Weighed e

theorem acceptsCoding_iff (r : Request) (name : Bytes) :
    AcceptsCoding r name ↔
      ∃ v, r.headersIn.acceptEncoding = some v ∧ ∃ e ∈ elements v, Accepts name e := by
  unfold AcceptsCoding Accepts elements
  simp only [aeElement_name, aeElement_weighed]

/-- The guard, on the elements of the list. -/
theorem aeClassAccepted_elements {r : Request} {cls : ℕ} {name : Bytes}
    (h : aeClassName cls = some name) :
    aeClassAccepted r cls = true ↔
      ∃ v, r.headersIn.acceptEncoding = some v ∧ ∃ e ∈ elements v, Accepts name e := by
  have hcls : cls ≠ aeClassIdentity := by
    rintro rfl
    cases h
  rw [aeClassAccepted_iff hcls, ← acceptsCoding_iff]
  constructor
  · rintro ⟨name', hname, hok⟩
    exact Option.some.inj (hname.symm.trans h) ▸ hok
  · exact fun hok => ⟨name, h, hok⟩

/-- `"zstd"`. -/
def zstdName : Bytes := lit ['z', 's', 't', 'd']

/-- `"br"`. -/
def brName : Bytes := lit ['b', 'r']

/-- `"gzip"`. -/
def gzipName : Bytes := lit ['g', 'z', 'i', 'p']

/-- `"identity"`. -/
def identityName : Bytes := lit ['i', 'd', 'e', 'n', 't', 'i', 't', 'y']

/-- An element accepts a coding, as the walks test it. -/
def accepts (name e : Bytes) : Bool := aeQOk (aeElement e).2 && eqFold (aeElement e).1 name

theorem accepts_iff (name e : Bytes) : accepts name e = true ↔ Accepts name e := by
  rw [accepts, Bool.and_eq_true, aeElement_weighed, aeElement_name, Accepts]
  exact and_comm

/-- The three names are told apart, so the order of the tests does not matter. -/
theorem aeClassMatchCoding_eq (tok : Bytes) (f : AeFound) :
    aeClassMatchCoding tok f =
      ⟨f.zstd || eqFold tok zstdName, f.br || eqFold tok brName, f.gzip || eqFold tok gzipName⟩ := by
  have hother : ∀ {a b : Bytes}, eqFold tok a = true → a.map lower ≠ b.map lower →
      eqFold tok b = false := by
    intro a b ha hne
    rw [← Bool.not_eq_true]
    exact fun hb => hne ((eq_of_beq ha).symm.trans (eq_of_beq hb))
  unfold aeClassMatchCoding
  by_cases hzstd : eqFold tok zstdName = true
  · have hlen : tok.length = 4 := eqFold_length hzstd
    have hbr : eqFold tok brName = false := hother hzstd (by decide)
    have hgzip : eqFold tok gzipName = false := hother hzstd (by decide)
    rw [if_pos ⟨hlen, hzstd⟩, hzstd, hbr, hgzip]
    simp
  rw [if_neg fun h => hzstd h.2]
  rw [Bool.not_eq_true] at hzstd
  by_cases hbr : eqFold tok brName = true
  · have hlen : tok.length = 2 := eqFold_length hbr
    have hgzip : eqFold tok gzipName = false := hother hbr (by decide)
    rw [if_pos ⟨hlen, hbr⟩, hzstd, hbr, hgzip]
    simp
  rw [if_neg fun h => hbr h.2]
  rw [Bool.not_eq_true] at hbr
  by_cases hgzip : eqFold tok gzipName = true
  · have hlen : tok.length = 4 := eqFold_length hgzip
    rw [if_pos ⟨hlen, hgzip⟩, hzstd, hbr, hgzip]
    simp
  · rw [if_neg fun h => hgzip h.2]
    rw [Bool.not_eq_true] at hgzip
    rw [hzstd, hbr, hgzip]
    simp

/-- **What one element adds** to the codings that were found. -/
theorem aeClassScan_cons (e : Bytes) (rest : List Bytes) (f : AeFound) (hf : f.zstd = false) :
    aeClassScan (e :: rest) f =
      if accepts zstdName e then
        ⟨true, f.br || accepts brName e, f.gzip || accepts gzipName e⟩
      else aeClassScan rest ⟨false, f.br || accepts brName e, f.gzip || accepts gzipName e⟩ := by
  have hnil : ∀ name : Bytes, name ≠ [] → eqFold [] name = false := by
    intro name hname
    cases name with
    | nil => exact absurd rfl hname
    | cons c name => rfl
  have hf' : f = ⟨false, f.br, f.gzip⟩ := by rw [← hf]
  rw [aeClassScan]
  simp only [accepts]
  by_cases hq : aeQOk (aeElement e).2 = true
  · simp only [hq, and_true, Bool.true_and]
    by_cases hlen : (aeElement e).1.length > 0
    · rw [if_pos hlen, aeClassMatchCoding_eq, hf]
      simp only [Bool.false_or]
      cases eqFold (aeElement e).1 zstdName <;> rfl
    · have hempty : (aeElement e).1 = [] := List.length_eq_zero_iff.1 (by omega)
      rw [if_neg hlen, hempty, hnil _ (by decide), hnil _ (by decide), hnil _ (by decide)]
      simp only [Bool.false_eq_true, if_false, Bool.or_false]
      rw [← hf']
  · rw [Bool.not_eq_true] at hq
    simp only [hq, Bool.false_eq_true, and_false, if_false, Bool.false_and, Bool.or_false]
    rw [← hf']

/-- **The early exit changes nothing.**  What the walk answers is decided by the codings that some
element accepts. -/
theorem aeClassScan_dispatch (l : List Bytes) (f : AeFound) (hf : f.zstd = false) :
    aeClassDispatch (aeClassScan l f) =
      if l.any (accepts zstdName) then zstdName
      else if f.br || l.any (accepts brName) then brName
      else if f.gzip || l.any (accepts gzipName) then gzipName
      else identityName := by
  induction l generalizing f with
  | nil =>
    rw [aeClassScan, aeClassDispatch, hf]
    simp only [List.any_nil, Bool.or_false]
    rfl
  | cons e rest ih =>
    rw [aeClassScan_cons e rest f hf]
    simp only [List.any_cons, ← Bool.or_assoc]
    cases accepts zstdName e with
    | true => rfl
    | false => exact ih _ rfl

/-- **The class of a request is the highest coding that its guard accepts.** -/
theorem aeClass_eq (r : Request) :
    aeClass r =
      if aeClassAccepted r aeClassZstd then zstdName
      else if aeClassAccepted r aeClassBr then brName
      else if aeClassAccepted r aeClassGzip then gzipName
      else identityName := by
  have hguard : ∀ {cls : ℕ} {name : Bytes}, aeClassName cls = some name →
      (∀ v, r.headersIn.acceptEncoding = some v →
        aeClassAccepted r cls = (elements v).any (accepts name)) ∧
      (r.headersIn.acceptEncoding = none → aeClassAccepted r cls = false) := by
    intro cls name hname
    constructor
    · intro v hv
      rw [Bool.eq_iff_iff, aeClassAccepted_elements hname, List.any_eq_true]
      simp only [accepts_iff, hv, Option.some.injEq, exists_eq_left']
    · intro hnone
      rw [← Bool.not_eq_true, aeClassAccepted_elements hname, hnone]
      rintro ⟨v, hv, -⟩
      cases hv
  obtain ⟨hz, hz'⟩ := hguard (show aeClassName aeClassZstd = some zstdName from rfl)
  obtain ⟨hb, hb'⟩ := hguard (show aeClassName aeClassBr = some brName from rfl)
  obtain ⟨hg, hg'⟩ := hguard (show aeClassName aeClassGzip = some gzipName from rfl)
  unfold aeClass
  cases hv : r.headersIn.acceptEncoding with
  | none =>
    rw [hz' hv, hb' hv, hg' hv]
    rfl
  | some v =>
    dsimp only
    rw [aeClassScan_dispatch _ _ rfl, hz v hv, hb v hv, hg v hv]
    rfl

/-- Lists of elements that say the same have one class, and one guard. -/
theorem same_class {r r' : Request} {v v' : Bytes} (hv : r.headersIn.acceptEncoding = some v)
    (hv' : r'.headersIn.acceptEncoding = some v')
    (h : ∀ e ∈ elements v, ∃ e' ∈ elements v', Same e e')
    (h' : ∀ e' ∈ elements v', ∃ e ∈ elements v, Same e e') :
    aeClass r = aeClass r' ∧ ∀ cls, aeClassAccepted r cls = aeClassAccepted r' cls := by
  have hsame : ∀ {name e e'}, Same e e' → (Accepts name e ↔ Accepts name e') := by
    intro name e e' h
    unfold Accepts Weighed
    rw [h.name, h.weight]
  have hguard : ∀ cls, aeClassAccepted r cls = aeClassAccepted r' cls := by
    intro cls
    cases hname : aeClassName cls with
    | none =>
      by_cases hcls : cls = aeClassIdentity
      · rw [aeClassAccepted, aeClassAccepted, if_pos hcls, if_pos hcls]
      · rw [aeClassAccepted, aeClassAccepted, if_neg hcls, if_neg hcls, hname]
    | some name =>
      rw [Bool.eq_iff_iff, aeClassAccepted_elements hname, aeClassAccepted_elements hname]
      simp only [hv, hv', Option.some.injEq, exists_eq_left']
      constructor
      · rintro ⟨e, he, hok⟩
        obtain ⟨e', he', heq⟩ := h e he
        exact ⟨e', he', (hsame heq).1 hok⟩
      · rintro ⟨e', he', hok⟩
        obtain ⟨e, he, heq⟩ := h' e' he'
        exact ⟨e, he, (hsame heq).2 hok⟩
  refine ⟨?_, hguard⟩
  rw [aeClass_eq, aeClass_eq, hguard, hguard, hguard]

/-- Parameters before the first `q` do not count. -/
theorem same_of_parameters {name q : Bytes} {before : List Bytes} (hname : 59 ∉ name)
    (hq : 59 ∉ q) (hbefore : ∀ p ∈ before, 59 ∉ p ∧ qParam p = none) :
    Same ([59].intercalate (name :: (before ++ [q]))) ([59].intercalate [name, q]) := by
  have hparts : ∀ ps : List Bytes, (∀ p ∈ ps, 59 ∉ p) →
      ([59].intercalate (name :: ps)).splitOn 59 = name :: ps := fun ps hps =>
    List.splitOn_intercalate 59 (List.forall_mem_cons.2 ⟨hname, hps⟩) (List.cons_ne_nil _ _)
  have hlong := hparts (before ++ [q]) fun p hp => by
    rcases List.mem_append.1 hp with hp | hp
    · exact (hbefore p hp).1
    · exact List.mem_singleton.1 hp ▸ hq
  have hshort := hparts [q] fun p hp => List.mem_singleton.1 hp ▸ hq
  have hnone : before.filterMap qParam = [] := List.filterMap_eq_nil_iff.2 fun p hp =>
    (hbefore p hp).2
  constructor
  · rw [codingName, codingName, hlong, hshort]
    rfl
  · rw [qValues, qValues, parameters, parameters, hlong, hshort, List.tail_cons,
      List.filterMap_append, hnone]
    rfl

/-- **The class and the guard of an `Accept-Encoding`.**  The class is the highest coding that the
guard accepts, and the guard accepts a coding where an element names it and its first `q`, if it has
one, is not zero.  So neither the order of the elements matters nor how often they are there, nor
what parameters are before the `q`. -/
theorem ae_class_highest :
    (∀ r, aeClass r =
      if aeClassAccepted r aeClassZstd then zstdName
      else if aeClassAccepted r aeClassBr then brName
      else if aeClassAccepted r aeClassGzip then gzipName
      else identityName) ∧
    (∀ r cls name, aeClassName cls = some name →
      (aeClassAccepted r cls = true ↔ ∃ v, r.headersIn.acceptEncoding = some v ∧
        ∃ e ∈ elements v, eqFold (codingName e) name = true ∧ Weighed e)) ∧
    (∀ r r' v v', r.headersIn.acceptEncoding = some v → r'.headersIn.acceptEncoding = some v' →
      (∀ e ∈ elements v, ∃ e' ∈ elements v', Same e e') →
      (∀ e' ∈ elements v', ∃ e ∈ elements v, Same e e') →
      aeClass r = aeClass r' ∧ ∀ cls, aeClassAccepted r cls = aeClassAccepted r' cls) ∧
    ∀ (name q : Bytes) (before : List Bytes), 59 ∉ name → 59 ∉ q →
      (∀ p ∈ before, 59 ∉ p ∧ qParam p = none) →
      Same ([59].intercalate (name :: (before ++ [q]))) ([59].intercalate [name, q]) :=
  ⟨aeClass_eq, fun _ _ _ => aeClassAccepted_elements, fun _ _ _ _ => same_class,
    fun _ _ _ => same_of_parameters⟩

/-- `GET /` with this `Accept-Encoding`. -/
def aeRequest (v : Bytes) : Request :=
  ⟨.get, [47], [], [47], ⟨[], [], some v, none, none, []⟩⟩

/-- `gzip;q=0;q=1`. -/
def gzipTwice : Bytes :=
  gzipName ++ lit [';', 'q', '=', '0', ';', 'q', '=', '1']

/-- A second `q` does not take back what the first one refused. -/
theorem second_q_ignored :
    ¬ ∀ r cls name, aeClassName cls = some name →
      (aeClassAccepted r cls = true ↔ ∃ v, r.headersIn.acceptEncoding = some v ∧
        ∃ e ∈ elements v, eqFold (codingName e) name = true ∧
          (qValues e = [] ∨ ∃ x ∈ qValues e, NonZero x)) := by
  intro h
  have hmem : gzipTwice ∈ elements gzipTwice := by decide
  have hone : [49] ∈ qValues gzipTwice := by decide
  have haccepted := (h (aeRequest gzipTwice) aeClassGzip gzipName rfl).2
    ⟨gzipTwice, rfl, gzipTwice, hmem, by decide, Or.inr ⟨[49], hone, 49, by decide⟩⟩
  exact absurd haccepted (by decide)

/-- `br, gzip` and `gzip,br,gzip` are one class. -/
theorem ae_class_highest_reordered :
    aeClass (aeRequest (brName ++ lit [',', ' '] ++ gzipName)) =
      aeClass (aeRequest (gzipName ++ lit [','] ++ brName ++ lit [','] ++ gzipName)) := by
  refine (ae_class_highest.2.2.1 _ _ _ _ rfl rfl (fun e he => ?_) fun e he => ?_).1
  · have hcases : e = brName ∨ e = 32 :: gzipName := by
      have hsplit : elements (brName ++ lit [',', ' '] ++ gzipName) = [brName, 32 :: gzipName] := by
        decide
      rw [hsplit] at he
      simpa using he
    rcases hcases with rfl | rfl
    · exact ⟨brName, by decide, rfl, rfl⟩
    · exact ⟨gzipName, by decide, rfl, rfl⟩
  · have hcases : e = gzipName ∨ e = brName := by
      have hsplit : elements (gzipName ++ lit [','] ++ brName ++ lit [','] ++ gzipName) =
          [gzipName, brName, gzipName] := by
        decide
      rw [hsplit] at he
      simp only [List.mem_cons, List.not_mem_nil, or_false] at he
      tauto
    rcases hcases with rfl | rfl
    · exact ⟨32 :: gzipName, by decide, rfl, rfl⟩
    · exact ⟨brName, by decide, rfl, rfl⟩

end AeClass
end Http
end CacheTurbo
