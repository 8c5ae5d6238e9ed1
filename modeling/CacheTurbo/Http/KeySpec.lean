/-
# When two keys are one

Every key is the digest of a base key followed by a suffix that says its kind.
The suffixes rely on the delimiter `0x1F`.  Nothing keeps that byte out of a
base key, an `Accept-Language` class or an `Origin`: nginx lets it through in a
header value, and a percent-decoded path may hold it.  So two different keys
have one digest exactly when one base key, or one language class, goes on with
a piece of the other side's suffix (`Spliced`).
-/

import CacheTurbo.Http.Key
import Mathlib.Data.Set.Function

namespace CacheTurbo
namespace Http

open Bytes

/-! ## Sources of keys -/

/-- What a request derives from a base key. -/
inductive KeyKind
  | object
  | variant (bits gen : ℕ)
  | marker
  | index
  deriving DecidableEq, Repr

/-- The classes of a request on the axes of a bit set. -/
structure Axes where
  ae : Option Bytes
  dev : Option Bytes
  lang : Option Bytes
  org : Option Bytes
  deriving DecidableEq, Repr

/-- The classes that a variant key of `bits` is built from. -/
def axes (r : Request) (bits : ℕ) : Axes :=
  { ae := if bits &&& varyEncoding != 0 then some (aeClass r) else none
    dev := if bits &&& varyDevice != 0 then some (deviceClass r) else none
    lang := if bits &&& varyLang != 0 then some (langClass r) else none
    org := if bits &&& varyOrigin != 0 then some (originClass r) else none }

/-- Everything a key is to be told apart by: its kind, its base key, its generation
modulo 256, and its class values, which are present exactly for its bit set. -/
inductive KeySource
  | object (base : Bytes)
  | variant (base : Bytes) (gen : ℕ) (axes : Axes)
  | marker (base : Bytes)
  | index (base : Bytes)
  deriving DecidableEq, Repr

/-- The source of the key of a kind. -/
def keySource (r : Request) (base : Bytes) : KeyKind → KeySource
  | .object => .object base
  | .variant bits gen => .variant base (gen % 256) (axes r bits)
  | .marker => .marker base
  | .index => .index base

/-- The names of the zone and of the second-level store: 32 bytes for a slot, a text of
another length for a variant index. -/
def keyName (digest : Bytes → KeyHash) (r : Request) (base : Bytes) : KeyKind → Bytes
  | .object => (digest base).toList
  | .variant bits gen => (variantHash digest r base bits gen).toList
  | .marker => (markerHash digest base).toList
  | .index => variantIndexName digest base

/-! ## Suffixes -/

/-- One axis in the material of a variant key. -/
def axisMaterial (tag : Bytes) : Option Bytes → Bytes
  | none => []
  | some cls => us :: (tag ++ cls)

/-- The tags of the axes. -/
def aeTag : Bytes := lit ['a', 'e', '=']

def devTag : Bytes := lit ['d', 'e', 'v', '=']

def langTag : Bytes := lit ['l', 'a', 'n', 'g', '=']

def orgTag : Bytes := lit ['o', 'r', 'g', '=']

/-- The end of a variant key's material. -/
def axesMaterial (a : Axes) : Bytes :=
  axisMaterial aeTag a.ae ++ (axisMaterial devTag a.dev ++
    (axisMaterial langTag a.lang ++ axisMaterial orgTag a.org))

namespace KeySource

/-- The base key. -/
def base : KeySource → Bytes
  | .object b | .variant b _ _ | .marker b | .index b => b

/-- What follows the base key in the material. -/
def suffix : KeySource → Bytes
  | .object _ => []
  | .variant _ gen a => us :: (lit ['g', 'e', 'n', '='] ++ decimal gen) ++ axesMaterial a
  | .marker _ => markerSuffix
  | .index _ => variantIndexSuffix

/-- What the digest is taken of. -/
def material (k : KeySource) : Bytes := k.base ++ k.suffix

/-- A key that names a slot, not a variant index. -/
def IsSlot : KeySource → Prop
  | .index _ => False
  | _ => True

end KeySource

theorem axisField_eq (bit : Bool) (tag cls : Bytes) :
    axisField bit tag cls = axisMaterial tag (if bit then some cls else none) := by
  cases bit <;> rfl

/-- The material of a variant key, field by field. -/
theorem variantSuffix_eq (r : Request) (base : Bytes) (bits gen : ℕ) :
    variantSuffix r bits gen = (keySource r base (.variant bits gen)).suffix := by
  simp only [variantSuffix, axisField_eq, keySource, KeySource.suffix, axesMaterial, axes]
  rfl

/-- The name of a key: the digest of its material, as it is for a slot, as text for an
index. -/
def KeySource.name (digest : Bytes → KeyHash) : KeySource → Bytes
  | .index b => 32 :: hexDump (digest (KeySource.index b).material).toList
  | k => (digest k.material).toList

theorem keyName_eq (digest : Bytes → KeyHash) (r : Request) (base : Bytes) (k : KeyKind) :
    keyName digest r base k = (keySource r base k).name digest := by
  cases k with
  | object => simp only [keyName, keySource, KeySource.name, KeySource.material,
      KeySource.base, KeySource.suffix, List.append_nil]
  | variant bits gen =>
    simp only [keyName, variantHash, variantSuffix_eq r base]
    rfl
  | marker => rfl
  | index => rfl

/-! ## Reading a suffix back -/

/-- A class that does not hold the delimiter. -/
def Plain (cls : Option Bytes) : Prop := ∀ v ∈ cls, us ∉ v

theorem aeClass_plain (r : Request) : us ∉ aeClass r := by
  have hdispatch : ∀ f : AeFound, us ∉ aeClassDispatch f := by
    rintro ⟨zstd, br, gzip⟩
    cases zstd <;> cases br <;> cases gzip <;> decide
  unfold aeClass
  split
  · exact hdispatch _
  · exact hdispatch _

theorem deviceClass_plain (r : Request) : us ∉ deviceClass r := by
  unfold deviceClass
  split
  · decide
  · split_ifs
    · decide
    · decide

theorem axes_plain (r : Request) (bits : ℕ) : Plain (axes r bits).ae ∧ Plain (axes r bits).dev := by
  refine ⟨fun v hv => ?_, fun v hv => ?_⟩
  · rw [axes, Option.mem_ite_none_right] at hv
    cases hv.2
    exact aeClass_plain r
  · rw [axes, Option.mem_ite_none_right] at hv
    cases hv.2
    exact deviceClass_plain r

/-- The rest of a suffix: nothing, or a field whose tag does not begin with `c`. -/
def NoTag (c : UInt8) (rest : Bytes) : Prop :=
  rest = [] ∨ ∃ d rest', d ≠ c ∧ rest = us :: d :: rest'

theorem NoTag.ended {c : UInt8} {rest : Bytes} (h : NoTag c rest) : Ended us rest := by
  rcases h with rfl | ⟨d, rest', -, rfl⟩
  · exact Or.inl rfl
  · exact Or.inr ⟨_, rfl⟩

/-- A later axis does not begin with the tag of an earlier one. -/
theorem NoTag.axis {c d : UInt8} {tag : Bytes} {rest : Bytes} (h : NoTag c rest) (hd : d ≠ c)
    (cls : Option Bytes) : NoTag c (axisMaterial (d :: tag) cls ++ rest) := by
  cases cls with
  | none => exact h
  | some v => exact Or.inr ⟨d, tag ++ v ++ rest, hd, rfl⟩

/-- An axis that is there does not look like a rest without its tag. -/
theorem axisMaterial_ne {c : UInt8} {tag v rest rest' : Bytes} (h : NoTag c rest') :
    axisMaterial (c :: tag) (some v) ++ rest ≠ rest' := by
  intro he
  rcases h with rfl | ⟨d, t, hd, rfl⟩
  · cases he
  · exact hd (List.cons_eq_cons.1 (List.cons_eq_cons.1 he).2).1.symm

/-- The tag of an axis that is on both sides cancels. -/
theorem axisMaterial_cancel {tag v v' rest rest' : Bytes}
    (h : axisMaterial tag (some v) ++ rest = axisMaterial tag (some v') ++ rest') :
    v ++ rest = v' ++ rest' := by
  have htag : tag ++ (v ++ rest) = tag ++ (v' ++ rest') := by
    rw [← List.append_assoc, ← List.append_assoc]
    exact (List.cons_eq_cons.1 h).2
  exact List.append_cancel_left htag

/-- An axis with a plain class can be read off the front. -/
theorem axisMaterial_inj {c : UInt8} {tag rest rest' : Bytes} {cls cls' : Option Bytes}
    (hcls : Plain cls) (hcls' : Plain cls') (hrest : NoTag c rest) (hrest' : NoTag c rest')
    (h : axisMaterial (c :: tag) cls ++ rest = axisMaterial (c :: tag) cls' ++ rest') :
    cls = cls' ∧ rest = rest' := by
  cases cls with
  | none =>
    cases cls' with
    | none => exact ⟨rfl, h⟩
    | some v' => exact absurd h.symm (axisMaterial_ne hrest)
  | some v =>
    cases cls' with
    | none => exact absurd h (axisMaterial_ne hrest')
    | some v' =>
      obtain ⟨rfl, hr⟩ := append_sep_inj (hcls v rfl) (hcls' v' rfl) hrest.ended hrest'.ended
        (axisMaterial_cancel h)
      exact ⟨rfl, hr⟩

/-- The last axis can be read back whatever its class holds. -/
theorem axisMaterial_inj_last {c : UInt8} {tag : Bytes} {cls cls' : Option Bytes}
    (h : axisMaterial (c :: tag) cls = axisMaterial (c :: tag) cls') : cls = cls' := by
  have hnil : NoTag c [] := Or.inl rfl
  rw [← List.append_nil (axisMaterial (c :: tag) cls),
    ← List.append_nil (axisMaterial (c :: tag) cls')] at h
  cases cls with
  | none =>
    cases cls' with
    | none => rfl
    | some v' => exact absurd h.symm (axisMaterial_ne hnil)
  | some v =>
    cases cls' with
    | none => exact absurd h (axisMaterial_ne hnil)
    | some v' => rw [List.append_cancel_right (axisMaterial_cancel h)]

/-- The language class of `a'` goes on with a piece of the `Origin` field of `a`. -/
def LangSpliced (a a' : Axes) : Prop :=
  a.ae = a'.ae ∧ a.dev = a'.dev ∧ ∃ l t, t ≠ [] ∧ a.lang = some l ∧ a'.lang = some (l ++ t) ∧
    axisMaterial orgTag a.org = t ++ axisMaterial orgTag a'.org

/-- The language and the origin can be read back, or the languages are spliced. -/
theorem langMaterial_inj {a a' : Axes} (hae : a.ae = a'.ae) (hdev : a.dev = a'.dev)
    (horg : ∀ org, NoTag 108 (axisMaterial orgTag org))
    (h : axisMaterial langTag a.lang ++ axisMaterial orgTag a.org =
      axisMaterial langTag a'.lang ++ axisMaterial orgTag a'.org) :
    a = a' ∨ LangSpliced a a' ∨ LangSpliced a' a := by
  obtain ⟨ae, dev, lang, org⟩ := a
  obtain ⟨ae', dev', lang', org'⟩ := a'
  obtain rfl : ae = ae' := hae
  obtain rfl : dev = dev' := hdev
  dsimp only at h
  cases lang with
  | none =>
    cases lang' with
    | none =>
      obtain rfl := axisMaterial_inj_last h
      exact Or.inl rfl
    | some l' => exact absurd h.symm (axisMaterial_ne (horg org))
  | some l =>
    cases lang' with
    | none => exact absurd h (axisMaterial_ne (horg org'))
    | some l' =>
      rcases append_cut (axisMaterial_cancel h) with ⟨rfl, ho⟩ | ⟨t, ht, rfl, ho⟩ | ⟨t, ht, rfl, ho⟩
      · obtain rfl := axisMaterial_inj_last ho
        exact Or.inl rfl
      · exact Or.inr (Or.inl ⟨rfl, rfl, l, t, ht, rfl, rfl, ho⟩)
      · exact Or.inr (Or.inr ⟨rfl, rfl, l', t, ht, rfl, rfl, ho⟩)

/-- Two lists of axes have one material only when they are the same, or their language
classes are spliced. -/
theorem axesMaterial_inj {a a' : Axes} (ha : Plain a.ae ∧ Plain a.dev)
    (ha' : Plain a'.ae ∧ Plain a'.dev) (h : axesMaterial a = axesMaterial a') :
    a = a' ∨ LangSpliced a a' ∨ LangSpliced a' a := by
  have horg : ∀ {c : UInt8} (org : Option Bytes), 111 ≠ c → NoTag c (axisMaterial orgTag org) := by
    intro c org hc
    have hend : NoTag c [] := Or.inl rfl
    have haxis := @NoTag.axis c 111 [114, 103, 61] [] hend hc org
    rwa [List.append_nil] at haxis
  have hlang : ∀ {c : UInt8} (x : Axes), 108 ≠ c → 111 ≠ c →
      NoTag c (axisMaterial langTag x.lang ++ axisMaterial orgTag x.org) :=
    fun x hl ho => (horg x.org ho).axis hl x.lang
  obtain ⟨hae, h1⟩ := axisMaterial_inj ha.1 ha'.1
    ((hlang a (by decide) (by decide)).axis (by decide) a.dev)
    ((hlang a' (by decide) (by decide)).axis (by decide) a'.dev) h
  obtain ⟨hdev, h2⟩ := axisMaterial_inj ha.2 ha'.2 (hlang a (by decide) (by decide))
    (hlang a' (by decide) (by decide)) h1
  exact langMaterial_inj hae hdev (fun org => horg org (by decide)) h2

/-- Spliced languages have one material. -/
theorem LangSpliced.material {a a' : Axes} (h : LangSpliced a a') :
    axesMaterial a = axesMaterial a' := by
  obtain ⟨hae, hdev, l, t, -, hl, hl', horg⟩ := h
  rw [axesMaterial, axesMaterial, hae, hdev, hl, hl', horg, axisMaterial, axisMaterial,
    List.cons_append, List.cons_append, List.append_assoc, List.append_assoc, List.append_assoc]

theorem LangSpliced.ne {a a' : Axes} (h : LangSpliced a a') : a ≠ a' := by
  obtain ⟨-, -, l, t, ht, hl, hl', -⟩ := h
  rintro rfl
  rw [hl, Option.some.injEq] at hl'
  exact ht (List.append_cancel_left ((List.append_nil l).trans hl')).symm

/-! ## Slots and indexes -/

namespace KeySource

/-- The base key of `k'` goes on with a piece of the suffix of `k`, or the two are
variants whose languages are spliced. -/
def Spliced (k k' : KeySource) : Prop :=
  k.IsSlot ∧ k'.IsSlot ∧
    ((∃ t, t ≠ [] ∧ k'.base = k.base ++ t ∧ k.suffix = t ++ k'.suffix) ∨
      ∃ b gen a a', k = .variant b gen a ∧ k' = .variant b gen a' ∧ LangSpliced a a')

/-- The classes of a key on the closed axes do not hold the delimiter. -/
def Ok : KeySource → Prop
  | .variant _ _ a => Plain a.ae ∧ Plain a.dev
  | _ => True

theorem Spliced.material {k k' : KeySource} (h : k.Spliced k') : k.material = k'.material := by
  obtain ⟨-, -, ⟨t, -, hbase, hsuffix⟩ | ⟨b, gen, a, a', rfl, rfl, hl⟩⟩ := h
  · rw [KeySource.material, KeySource.material, hbase, hsuffix, List.append_assoc]
  · simp only [KeySource.material, suffix, base, hl.material]

theorem Spliced.ne {k k' : KeySource} (h : k.Spliced k') : k ≠ k' := by
  obtain ⟨-, -, ⟨t, ht, hbase, -⟩ | ⟨b, gen, a, a', rfl, rfl, hl⟩⟩ := h
  · rintro rfl
    exact ht (List.append_cancel_left ((List.append_nil _).trans hbase)).symm
  · intro he
    exact hl.ne (KeySource.variant.inj he).2.2

/-- Two slots of one base key. -/
theorem suffix_inj {k k' : KeySource} (hk : k.IsSlot) (hk' : k'.IsSlot) (hok : k.Ok)
    (hok' : k'.Ok) (hbase : k.base = k'.base) (h : k.suffix = k'.suffix) :
    k = k' ∨ k.Spliced k' ∨ k'.Spliced k := by
  have hended : ∀ a : Axes, Ended us (axesMaterial a) := by
    intro a
    have haxis : ∀ (tag : Bytes) (cls : Option Bytes) {rest : Bytes}, Ended us rest →
        Ended us (axisMaterial tag cls ++ rest) := by
      intro tag cls rest hrest
      cases cls with
      | none => exact hrest
      | some v => exact Or.inr ⟨_, rfl⟩
    have horg := haxis orgTag a.org (Or.inl rfl)
    rw [List.append_nil] at horg
    exact haxis _ _ (haxis _ _ (haxis _ _ horg))
  cases k with
  | object b =>
    cases k' with
    | object b' => exact Or.inl (congrArg _ hbase)
    | variant b' gen' a' => cases h
    | marker b' => cases h
    | index b' => exact hk'.elim
  | variant b gen a =>
    cases k' with
    | object b' => cases h
    | variant b' gen' a' =>
      obtain rfl : b = b' := hbase
      have hbody : decimal gen ++ axesMaterial a = decimal gen' ++ axesMaterial a' := by
        have htail := (List.cons_eq_cons.1 h).2
        simp only [List.append_eq, List.append_assoc] at htail
        exact List.append_cancel_left htail
      obtain ⟨hgen, hrest⟩ := append_sep_inj (not_mem_decimal (by decide) gen)
        (not_mem_decimal (by decide) gen') (hended a) (hended a') hbody
      obtain rfl := decimal_inj hgen
      rcases axesMaterial_inj hok hok' hrest with rfl | hl | hl
      · exact Or.inl rfl
      · exact Or.inr (Or.inl ⟨hk, hk', Or.inr ⟨b, gen, a, a', rfl, rfl, hl⟩⟩)
      · exact Or.inr (Or.inr ⟨hk', hk, Or.inr ⟨b, gen, a', a, rfl, rfl, hl⟩⟩)
    | marker b' => cases h
    | index b' => exact hk'.elim
  | marker b =>
    cases k' with
    | object b' => cases h
    | variant b' gen' a' => cases h
    | marker b' => exact Or.inl (congrArg _ hbase)
    | index b' => exact hk'.elim
  | index b => exact hk.elim

/-- **Two slots have one material exactly when they are the same or spliced.** -/
theorem material_eq_iff {k k' : KeySource} (hk : k.IsSlot) (hk' : k'.IsSlot) (hok : k.Ok)
    (hok' : k'.Ok) : k.material = k'.material ↔ k = k' ∨ k.Spliced k' ∨ k'.Spliced k := by
  constructor
  · intro h
    rcases append_cut h with ⟨hb, hs⟩ | ⟨t, ht, hb, hs⟩ | ⟨t, ht, hb, hs⟩
    · exact suffix_inj hk hk' hok hok' hb hs
    · exact Or.inr (Or.inl ⟨hk, hk', Or.inl ⟨t, ht, hb, hs⟩⟩)
    · exact Or.inr (Or.inr ⟨hk', hk, Or.inl ⟨t, ht, hb, hs⟩⟩)
  · rintro (rfl | h | h)
    · rfl
    · exact h.material
    · exact h.material.symm

/-- Without the delimiter in the base key and in the language class of `k'`, nothing is
spliced into `k'`; its `Origin` may hold any bytes. -/
theorem not_spliced {k k' : KeySource} (hbase : us ∉ k'.base)
    (hlang : ∀ b gen a, k' = .variant b gen a → Plain a.lang) : ¬ k.Spliced k' := by
  have hhead : ∀ {s t rest : Bytes}, Ended us s → t ≠ [] → s = t ++ rest → us ∈ t := by
    intro s t rest hs ht he
    cases t with
    | nil => exact absurd rfl ht
    | cons c t =>
      rcases hs with rfl | ⟨s', rfl⟩
      · cases he
      · obtain ⟨rfl, -⟩ := List.cons_eq_cons.1 he
        exact List.mem_cons_self
  rintro ⟨hk, -, ⟨t, ht, hb, hs⟩ | ⟨b, gen, a, a', rfl, rfl, -, -, l, t, ht, -, hl', ho⟩⟩
  · have hsuffix : Ended us k.suffix := by
      cases k with
      | object b => exact Or.inl rfl
      | variant b gen a => exact Or.inr ⟨_, rfl⟩
      | marker b => exact Or.inr ⟨_, rfl⟩
      | index b => exact hk.elim
    rw [hb] at hbase
    exact hbase (List.mem_append_right _ (hhead hsuffix ht hs))
  · have horg : Ended us (axisMaterial orgTag a.org) := by
      cases a.org with
      | none => exact Or.inl rfl
      | some v => exact Or.inr ⟨_, rfl⟩
    exact hlang b gen a' rfl _ hl' (List.mem_append_right _ (hhead horg ht ho))

end KeySource

theorem keySource_ok (r : Request) (base : Bytes) (k : KeyKind) : (keySource r base k).Ok := by
  cases k with
  | object => trivial
  | variant bits gen => exact axes_plain r bits
  | marker => trivial
  | index => trivial

/-- Two hexadecimal digits give the byte back. -/
theorem hexDigit_inj {c d : UInt8} (hhi : hexDigit (c >>> 4) = hexDigit (d >>> 4))
    (hlo : hexDigit (c &&& 15) = hexDigit (d &&& 15)) : c = d := by
  let value (h : UInt8) : UInt8 := if h < 87 then h - 48 else h - 87
  have hback : ∀ n : Fin 256,
      let c := UInt8.ofNat n.val
      value (hexDigit (c >>> 4)) * 16 + value (hexDigit (c &&& 15)) = c := by decide +kernel
  have hbyte : ∀ c : UInt8, value (hexDigit (c >>> 4)) * 16 + value (hexDigit (c &&& 15)) = c := by
    intro c
    have hc := hback ⟨c.toNat, c.toNat_lt⟩
    simpa only [UInt8.ofNat_toNat] using hc
  rw [← hbyte c, ← hbyte d, hhi, hlo]

theorem hexDump_inj {b b' : Bytes} (h : hexDump b = hexDump b') : b = b' := by
  induction b generalizing b' with
  | nil =>
    cases b' with
    | nil => rfl
    | cons d b' => cases h
  | cons c b ih =>
    cases b' with
    | nil => cases h
    | cons d b' =>
      obtain ⟨hhi, htail⟩ := List.cons_eq_cons.1 h
      obtain ⟨hlo, hrest⟩ := List.cons_eq_cons.1 htail
      rw [hexDigit_inj hhi hlo, ih hrest]

theorem hexDump_length (b : Bytes) : (hexDump b).length = 2 * b.length := by
  induction b with
  | nil => rfl
  | cons c b ih =>
    have hcons : hexDump (c :: b) = hexDigit (c >>> 4) :: hexDigit (c &&& 15) :: hexDump b := rfl
    rw [hcons, List.length_cons, List.length_cons, List.length_cons, ih]
    omega

/-- Names are equal for keys of one sort with one material. -/
theorem name_eq_iff {digest : Bytes → KeyHash} {k k' : KeySource}
    (hinj : Set.InjOn digest {k.material, k'.material}) :
    k.name digest = k'.name digest ↔ (k.IsSlot ↔ k'.IsSlot) ∧ k.material = k'.material := by
  have hdigest : ∀ {d d' : KeyHash}, d.toList = d'.toList ↔ d = d' := Vector.toList_inj
  have hmaterial : digest k.material = digest k'.material ↔ k.material = k'.material :=
    ⟨fun h => hinj (Set.mem_insert _ _) (Set.mem_insert_of_mem _ rfl) h, congrArg digest⟩
  have hlen : ∀ d d' : KeyHash, d.toList ≠ 32 :: hexDump d'.toList := by
    intro d d' he
    have hl := congrArg List.length he
    rw [List.length_cons, hexDump_length, Vector.length_toList, Vector.length_toList] at hl
    omega
  have hslot : ∀ {j : KeySource}, j.IsSlot → j.name digest = (digest j.material).toList := by
    rintro (b | ⟨b, gen, a⟩ | b | b) hj
    · rfl
    · rfl
    · rfl
    · exact hj.elim
  have hindex : ∀ {j : KeySource}, ¬ j.IsSlot →
      j.name digest = 32 :: hexDump (digest j.material).toList := by
    rintro (b | ⟨b, gen, a⟩ | b | b) hj
    · exact absurd trivial hj
    · exact absurd trivial hj
    · exact absurd trivial hj
    · rfl
  by_cases hk : k.IsSlot
  · by_cases hk' : k'.IsSlot
    · rw [hslot hk, hslot hk', hdigest, hmaterial]
      exact ⟨fun h => ⟨iff_of_true hk hk', h⟩, fun h => h.2⟩
    · rw [hslot hk, hindex hk']
      exact ⟨fun h => absurd h (hlen _ _), fun h => absurd (h.1.1 hk) hk'⟩
  · by_cases hk' : k'.IsSlot
    · rw [hindex hk, hslot hk']
      exact ⟨fun h => absurd h.symm (hlen _ _), fun h => absurd (h.1.2 hk') hk⟩
    · rw [hindex hk, hindex hk', List.cons_inj_right]
      exact ⟨fun h => ⟨iff_of_false hk hk', hmaterial.1 (hdigest.1 (hexDump_inj h))⟩,
        fun h => by rw [h.2]⟩

/-- **Which keys are told apart.**  For a digest without a collision on the two keys at
hand, the names of two keys are equal only for one source, whatever the requests and the
base keys, exactly when neither key is spliced into the other. -/
theorem key_separation (digest : Bytes → KeyHash) (r r' : Request) (base base' : Bytes)
    (k k' : KeyKind) (hinj : Set.InjOn digest
      {(keySource r base k).material, (keySource r' base' k').material}) :
    (keyName digest r base k = keyName digest r' base' k' →
      keySource r base k = keySource r' base' k') ↔
    ¬ ((keySource r base k).Spliced (keySource r' base' k') ∨
      (keySource r' base' k').Spliced (keySource r base k)) := by
  have hok := keySource_ok r base k
  have hok' := keySource_ok r' base' k'
  rw [keyName_eq, keyName_eq, name_eq_iff hinj]
  generalize keySource r base k = s at *
  generalize keySource r' base' k' = s' at *
  constructor
  · rintro h (hs | hs)
    · exact hs.ne (h ⟨iff_of_true hs.1 hs.2.1, hs.material⟩)
    · exact hs.ne (h ⟨iff_of_true hs.2.1 hs.1, hs.material.symm⟩).symm
  · rintro h ⟨hsort, hm⟩
    by_cases hs : s.IsSlot
    · rcases (KeySource.material_eq_iff hs (hsort.1 hs) hok hok').1 hm with he | hsp
      · exact he
      · exact absurd hsp h
    · cases s with
      | index b =>
        cases s' with
        | index b' => exact congrArg _ (List.append_cancel_right hm)
        | object b' => exact absurd (hsort.2 trivial) hs
        | variant b' gen' a' => exact absurd (hsort.2 trivial) hs
        | marker b' => exact absurd (hsort.2 trivial) hs
      | object b => exact absurd trivial hs
      | variant b gen a => exact absurd trivial hs
      | marker b => exact absurd trivial hs

/-- A request without headers. -/
def bareRequest (uri : Bytes) : Request :=
  { method := .get, uri := uri, args := [], unparsedUri := uri,
    headersIn := HeadersIn.ofLines [] [] }

/-- A digest that tells byte strings of different lengths apart. -/
def lengthDigest (b : Bytes) : KeyHash := Vector.replicate 32 b.length.toUInt8

theorem key_separation_length :
    (keyName lengthDigest (bareRequest [47]) [47] .object =
        keyName lengthDigest (bareRequest [47]) [47, 97] .marker →
      keySource (bareRequest [47]) [47] .object = keySource (bareRequest [47]) [47, 97] .marker) ↔
    ¬ ((keySource (bareRequest [47]) [47] .object).Spliced
        (keySource (bareRequest [47]) [47, 97] .marker) ∨
      (keySource (bareRequest [47]) [47, 97] .marker).Spliced
        (keySource (bareRequest [47]) [47] .object)) :=
  key_separation lengthDigest _ _ _ _ _ _ (Set.injOn_pair.2 (by decide))

/-- A request for `/a%1Fvarymark`, under a key taken from the decoded path, has the
object key that is the marker key of `/a`. -/
theorem key_separation_fails :
    ¬ ∀ (digest : Bytes → KeyHash) (r r' : Request) (base base' : Bytes) (k k' : KeyKind),
      Set.InjOn digest {(keySource r base k).material, (keySource r' base' k').material} →
        keyName digest r base k = keyName digest r' base' k' →
          keySource r base k = keySource r' base' k' := by
  intro h
  have hsame := h lengthDigest (bareRequest [47, 97]) (bareRequest ([47, 97] ++ markerSuffix))
    [47, 97] ([47, 97] ++ markerSuffix) .marker .object (Set.injOn_pair.2 fun _ => by decide)
    (by decide)
  exact absurd hsame (by decide)

end Http
end CacheTurbo
